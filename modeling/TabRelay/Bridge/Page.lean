import TabRelay.Bridge.Error
import TabRelay.Change
import TabRelay.Tracing

/-!
# The page that a bridge works in

A page has two storage areas, a window with listeners and timers, and running
applications with their ports.  Every call on it may have been told to fail; it
then throws before it has any effect.  What the page notices is kept as a trace.
-/

namespace TabRelay.Bridge

open TabRelay.Storage TabRelay.Web

/-! ## Calls -/

inductive PageCall where
  | localStorage
  | sessionStorage
  | length
  | key
  | getItem
  | setItem
  | removeItem
  | addEventListener
  | removeEventListener
  | setTimeout
  | init
  | subscribe
  | unsubscribe
  | send
  deriving DecidableEq, Repr

/-- What the calls of one kind throw, by their number; a call without a value goes
well. -/
structure Schedule where
  made : Nat := 0
  thrownAt : Nat → Option Value := fun _ => none

namespace Schedule

def throwing (thrown : Value) (times : Option Nat) : Schedule where
  thrownAt k :=
    match times with
    | none => some thrown
    | some n => if k < n then some thrown else none

def thrown (s : Schedule) : Option Value := s.thrownAt s.made

def next (s : Schedule) : Schedule := { s with made := s.made + 1 }

end Schedule

/-! ## Applications and their ports -/

/-- How an application is made: its ports, and the messages with which it reacts
to what is sent to it. -/
structure AppSpec where
  ports : Value := .ofPairs
    [("onStoreChange", .port .incoming), ("storeCache", .port .outgoing)]
  echo : List Value := []
  deriving DecidableEq

structure App where
  name : String
  ports : Value
  echo : List Value
  subscribers : List (String × Nat) := []
  deriving DecidableEq

structure Port where
  app : Nat
  name : String
  value : Value
  deriving DecidableEq

structure Relay where
  kind : AreaKind
  changePort : Port
  deriving DecidableEq

/-! ## Callbacks -/

structure PortCallback where
  relay : Relay
  alive : Bool := true
  deriving DecidableEq

inductive Reaction where
  | forward (relay : Relay)
  | note (id : String)
  deriving DecidableEq

structure WindowCallback where
  reaction : Reaction
  alive : Bool := true
  deriving DecidableEq

inductive Timer where
  | notice (port : Port) (change : Change Value)
  | task (name : String)
  deriving DecidableEq

/-! ## The page -/

inductive Trace where
  | init (node flags : Value)
  | subscribed (port : String)
  | unsubscribed (port : String)
  /-- `same` tells of an object whether the application had emitted it. -/
  | sent (port : String) (message : Value) (same : Option Bool)
  | listening
  | unlistened
  | timeout
  | console (arguments : List Value)
  | uncaught (error : Value)
  | heard (id : String) (event : Event)
  | started (task : String)
  | mark (mark : Mark)
  deriving DecidableEq

/-- The entries of an area in the order in which their keys were first set. -/
abbrev Entries := List (String × String)

structure Page where
  hasWindow : Bool := true
  hasDocument : Bool := true
  nodes : List String := ["myapp"]
  localEntries : Option Entries := some []
  sessionEntries : Option Entries := some []
  program : AppSpec := {}
  apps : List App := []
  appNames : Keyed Nat := []
  portCallbacks : List PortCallback := []
  windowCallbacks : List WindowCallback := []
  listeners : List Nat := []
  timers : List Timer := []
  schedules : List (PageCall × Schedule) := []
  emitted : List Value := []
  /-- The latest entry is the first. -/
  trace : List Trace := []

namespace Page

def entries (page : Page) : AreaKind → Option Entries
  | .localArea => page.localEntries
  | .sessionArea => page.sessionEntries

def setEntries (page : Page) (kind : AreaKind) (entries : Entries) : Page :=
  match kind with
  | .localArea => { page with localEntries := some entries }
  | .sessionArea => { page with sessionEntries := some entries }

def scheduleOf (page : Page) (call : PageCall) : Schedule :=
  match page.schedules.find? fun entry => entry.1 = call with
  | some (_, s) => s
  | none => {}

def setSchedule (page : Page) (call : PageCall) (s : Schedule) : Page :=
  { page with
    schedules := (call, s) :: page.schedules.filter fun entry => entry.1 ≠ call }

def modifyApp (page : Page) (i : Nat) (f : App → App) : Page :=
  { page with apps := page.apps.modify i f }

def app? (page : Page) (name : String) : Option Nat := Keyed.lookup? name page.appNames

@[simp] theorem entries_setEntries (page : Page) (kind other : AreaKind) (es : Entries) :
    (page.setEntries kind es).entries other =
      if kind = other then some es else page.entries other := by
  cases kind <;> cases other <;> rfl

theorem scheduleOf_setSchedule (page : Page) (call other : PageCall) (s : Schedule) :
    (page.setSchedule call s).scheduleOf other =
      if call = other then s else page.scheduleOf other := by
  by_cases h : call = other
  · simp [scheduleOf, setSchedule, h]
  · have hTest : (fun entry : PageCall × Schedule =>
        !decide (entry.1 = call) && decide (entry.1 = other)) =
        fun entry => decide (entry.1 = other) := by
      funext entry
      by_cases hEntry : entry.1 = other <;> simp [hEntry, Ne.symm h]
    simp [scheduleOf, setSchedule, h, hTest]

def subscribersOf (page : Page) (app : Nat) (port : String) : List Nat :=
  match page.apps[app]? with
  | some app => (app.subscribers.filter fun s => s.1 = port).map (·.2)
  | none => []

end Page

/-! ## Entries in the order of insertion -/

namespace Entries

def get? (key : String) (entries : Entries) : Option String :=
  (entries.find? fun entry => entry.1 = key).map (·.2)

/-- Overwriting keeps the place. -/
def set (key text : String) : Entries → Entries
  | [] => [(key, text)]
  | (k, t) :: rest => if k = key then (k, text) :: rest else (k, t) :: set key text rest

def remove (key : String) (entries : Entries) : Entries :=
  entries.filter fun entry => entry.1 ≠ key

theorem get?_set (key text other : String) (entries : Entries) :
    (entries.set key text).get? other =
      if key = other then some text else entries.get? other := by
  induction entries with
  | nil => by_cases h : key = other <;> simp [set, get?, h]
  | cons head rest ih =>
      obtain ⟨k, t⟩ := head
      simp only [get?] at ih
      by_cases hk : k = key
      · subst hk
        by_cases h : k = other <;> simp [set, get?, h]
      · by_cases h : k = other
        · have hNe : key ≠ other := fun e => hk (h.trans e.symm)
          subst h
          simp [set, get?, hk, hNe]
        · simp [set, get?, hk, h, ih]

theorem get?_remove (key other : String) (entries : Entries) :
    (entries.remove key).get? other = if key = other then none else entries.get? other := by
  by_cases h : key = other
  · subst h
    simp [get?, remove, List.find?_eq_none]
  · simp only [get?, remove, List.find?_filter, h, if_false]
    congr 2
    funext entry
    by_cases hEntry : entry.1 = other <;> simp [hEntry, Ne.symm h]

end Entries

end TabRelay.Bridge
