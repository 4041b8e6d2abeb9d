import TabRelay.Bridge.Config
import TabRelay.Change
import TabRelay.Decoding.Shape
import TabRelay.Snapshot
import TabRelay.Storage.Event

/-!
# The JSON forms of the library's records

Each record has a form in which it is written, with its fields in a fixed order,
and a decoder that reads this form again.  Absent parts are written as null, so
a stored null cannot be told from an absent value.
-/

namespace TabRelay.Decoding

open TabRelay.Json TabRelay.Storage TabRelay.Bridge

/-! ## Storage areas -/

def areaForm (kind : AreaKind) : Value := .string kind.name

def areaChoice : Choice AreaKind where
  variants := [("local", plainVariant .localArea), ("session", plainVariant .sessionArea)]

def decodeArea : Decoder AreaKind := areaChoice.decode

/-! ## Events -/

def eventForm (e : Event) : Value :=
  .object [("key", .ofText? e.key), ("old_value", .ofText? e.oldText),
    ("new_value", .ofText? e.newText), ("area", .ofOption areaForm e.area)]

def eventShape : Shape Event where
  expected := "struct StorageEvent"
  fields :=
    [.of "key" (decodeOption decodeString) fun key e => { e with key },
      .of "old_value" (decodeOption decodeString) fun oldText e => { e with oldText },
      .of "new_value" (decodeOption decodeString) fun newText e => { e with newText },
      .of "area" (decodeOption decodeArea) fun area e => { e with area }]
  closed := false
  openEnded := false
  start := {}

def decodeEvent : Decoder Event := eventShape.decode

/-! ## Writes -/

def writeForm (w : Write Value) : Value :=
  .object [("key", .string w.key), ("value", .ofOption id w.value)]

structure KeyedValue where
  key : Option String := none
  value : Option Value := none

def keyedValueShape (expected : String) : Shape KeyedValue where
  expected := expected
  fields :=
    [.of "key" decodeString fun key record => { record with key := some key },
      .of "value" (decodeOption decodeJson) fun value record => { record with value }]
  closed := false
  openEnded := false
  start := {}

def KeyedValue.finish {α : Type} (make : String → Option Value → α) (record : KeyedValue) :
    Decoded α :=
  match record.key with
  | some key => .ok (make key record.value)
  | none => refuse (.missingField "key")

def decodeWrite : Decoder (Write Value) := fun source d => do
  ((← (keyedValueShape "struct WriteRequest").decode source d).finish Write.mk)

/-! ## Changes -/

def changeForm : Change Value → Value
  | .committed key value =>
      .object [("Committed", .object [("key", .string key), ("value", .ofOption id value)])]
  | .external key newText =>
      .object [("External", .object [("key", .ofText? key), ("new_value", .ofText? newText)])]

structure External where
  key : Option String := none
  newText : Option String := none

def externalShape : Shape External where
  expected := "struct variant StoreChange::External"
  fields :=
    [.of "key" (decodeOption decodeString) fun key record => { record with key },
      .of "new_value" (decodeOption decodeString) fun newText record => { record with newText }]
  closed := false
  openEnded := false
  start := {}

def changeChoice : Choice (Change Value) where
  variants :=
    [("Committed", recordVariant (keyedValueShape "struct variant StoreChange::Committed")
        (KeyedValue.finish Change.committed)),
      ("External", recordVariant externalShape fun record =>
        .ok (.external record.key record.newText))]

def decodeChange : Decoder (Change Value) := changeChoice.decode

/-! ## Snapshots -/

def snapshotForm (s : Snapshot) : Value := .object (s.map fun (key, text) => (key, .string text))

/-- The last text given for a key stays. -/
def decodePairs (source : Source) :
    List (Except Fault String × Document) → Snapshot → Decoded Snapshot
  | [], entries => .ok entries
  | (key, found) :: rest, entries => do
      let key ← liftFault key
      let text ← decodeString source found
      decodePairs source rest (Keyed.insert key text entries)

def decodeSnapshot : Decoder Snapshot
  | source, .object fields ending => do
      let source ← source.enter
      let entries ← decodePairs source fields []
      liftFault (Document.checkEnding ending)
      .ok entries
  | _, d => mismatch "a map" d

/-! ## Configurations -/

def configForm (c : Config) : Value :=
  .object [("node", .string c.node), ("storePort", .string c.storePort),
    ("changePort", .string c.changePort), ("area", areaForm c.area)]

def configShape : Shape Config where
  expected := "struct BridgeConfig"
  fields :=
    [.of "node" decodeString fun node c => { c with node },
      .of "storePort" decodeString fun storePort c => { c with storePort },
      .of "changePort" decodeString fun changePort c => { c with changePort },
      .of "area" decodeArea fun area c => { c with area }]
  closed := true
  openEnded := true
  start := {}

def decodeConfig : Decoder Config := configShape.decode

/-! ## Nothing -/

def decodeSilence : Decoder Unit := decodeNull "unit struct NoListener"

end TabRelay.Decoding
