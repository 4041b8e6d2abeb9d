import TabRelay.Storage.Event
import TabRelay.Text.Keyed
import TabRelay.Text.Shown

/-!
# A storage area shared by tabs

An `Area` holds the entries that all its tabs see and the list of their
subscribers.  Changing it is a function to the changed area and the event that
the change raises, if it is one: a write of the same text, a removal of an
absent key and the clearing of an empty area raise nothing.
-/

namespace TabRelay.Storage

open TabRelay.Text

/-! ## Calls that may fail -/

inductive Call where
  | length
  | key
  | get
  | set
  | remove
  | subscribe
  deriving DecidableEq, Repr

def Call.name : Call → String
  | length => "len"
  | key => "key"
  | get => "get"
  | set => "set"
  | remove => "remove"
  | subscribe => "subscribe"

inductive AreaError where
  | quotaExceeded (key : String) (quota : Nat)
  | injected (call : Call)
  deriving DecidableEq, Repr

def AreaError.message : AreaError → String
  | quotaExceeded key quota =>
      "Storage quota of " ++ toString quota ++ " bytes exceeded while setting " ++ shown key
  | injected call => "injected " ++ call.name ++ " failure"

/-- How the handle of a tab misbehaves: calls that fail, a wrong number of keys,
and indices and keys at which it finds nothing. -/
structure Faults where
  failing : List Call := []
  length : Option Nat := none
  hiddenIndices : List Nat := []
  hiddenKeys : List String := []
  deriving DecidableEq, Repr, Inhabited

def Faults.check (faults : Faults) (call : Call) : Except AreaError Unit :=
  if call ∈ faults.failing then .error (.injected call) else .ok ()

/-! ## Areas -/

structure Subscriber where
  id : Nat
  tab : Nat
  handler : Nat
  deriving DecidableEq, Repr

structure Area where
  kind : AreaKind
  entries : Keyed String := []
  quota : Option Nat := none
  subscribers : List Subscriber := []
  /-- The faults of each tab that was opened, by its number. -/
  tabs : List Faults := [{}]
  nextSubscriber : Nat := 0
  deriving DecidableEq, Repr, Inhabited

def entryBytes (key text : String) : Nat := key.utf8ByteSize + text.utf8ByteSize

def usedBytes : Keyed String → Nat
  | [] => 0
  | (key, text) :: rest => entryBytes key text + usedBytes rest

def replacedBytes (key : String) (entries : Keyed String) : Nat :=
  match Keyed.lookup? key entries with
  | some text => entryBytes key text
  | none => 0

namespace Area

/-! ## Reading -/

def length (area : Area) : Nat := area.entries.length % 0x100000000

def keyAt? (area : Area) (index : Nat) : Option String := area.entries[index]?.map (·.1)

def get? (area : Area) (key : String) : Option String := Keyed.lookup? key area.entries

/-! ## Changing -/

def neededBytes (area : Area) (key text : String) : Nat :=
  usedBytes area.entries - replacedBytes key area.entries + entryBytes key text

def fits (area : Area) (key text : String) : Bool :=
  match area.quota with
  | none => true
  | some quota => area.neededBytes key text ≤ quota

def set (area : Area) (key text : String) : Except AreaError (Area × Option Event) :=
  if area.fits key text then
    let old := area.get? key
    let changed := { area with entries := Keyed.insert key text area.entries }
    if old = some text then .ok (changed, none)
    else .ok (changed, some ⟨some key, old, some text, some area.kind⟩)
  else .error (.quotaExceeded key (area.quota.getD 0))

def remove (area : Area) (key : String) : Area × Option Event :=
  match area.get? key with
  | none => (area, none)
  | some old =>
      ({ area with entries := Keyed.erase key area.entries },
        some ⟨some key, some old, none, some area.kind⟩)

def clear (area : Area) : Area × Option Event :=
  if area.entries.isEmpty then (area, none)
  else ({ area with entries := [] }, some (.cleared area.kind))

/-! ## Tabs and subscribers -/

def openTab (area : Area) : Area × Nat :=
  ({ area with tabs := area.tabs ++ [{}] }, area.tabs.length)

def faultsOf (area : Area) (tab : Nat) : Faults := area.tabs.getD tab {}

def setFaults (area : Area) (tab : Nat) (faults : Faults) : Area :=
  { area with tabs := area.tabs.set tab faults }

def subscribe (area : Area) (tab handler : Nat) : Area × Nat :=
  ({ area with
      subscribers := area.subscribers ++ [⟨area.nextSubscriber, tab, handler⟩]
      nextSubscriber := area.nextSubscriber + 1 },
    area.nextSubscriber)

def subscriber? (area : Area) (id : Nat) : Option Subscriber :=
  area.subscribers.find? fun s => s.id = id

def unsubscribe (area : Area) (id : Nat) : Area :=
  { area with subscribers := area.subscribers.filter fun s => s.id ≠ id }

def recipients (area : Area) (writer : Option Nat) : List Nat :=
  (area.subscribers.filter fun s => writer ≠ some s.tab).map (·.handler)

/-! ## Diagnostics -/

def shownEntries (entries : Keyed String) : String :=
  "\x7b" ++ ", ".intercalate (entries.map fun (key, text) => shown key ++ ": " ++ shown text) ++
    "\x7d"

def shownQuota : Option Nat → String
  | none => "None"
  | some quota => "Some(" ++ toString quota ++ ")"

def shownFrom (area : Area) (tab : Nat) : String :=
  "MemoryStorage \x7b area: " ++ area.kind.shown ++ ", tab: " ++ toString tab ++ ", entries: " ++
    shownEntries area.entries ++ ", quota: " ++ shownQuota area.quota ++ ", subscribers: " ++
    toString area.subscribers.length ++ " \x7d"

end Area

end TabRelay.Storage
