import TabRelay.Json.Value

/-!
# JSON text as it is read

A `Document` is what is found in a text that need not be JSON to its end.  A
place where reading cannot go on is part of the document, so that a decoder that
walks it in the order of the text meets the mistakes of the text and those of
its own in the order in which they stand.

Some texts have no value and can still be passed over: a number that is too
large, a text with half of a surrogate pair.
-/

namespace TabRelay.Json

inductive Fault where
  | malformed
  | ended
  deriving DecidableEq, Repr

/-- How many brackets may still be opened, one more than that; `none` is without
limit. -/
abbrev Room := Option Nat

def Room.enter : Room → Except Fault Room
  | none => .ok none
  | some n => if n ≤ 1 then .error .malformed else .ok (some (n - 1))

def Room.whole : Room := some 128

inductive Ending where
  | closed
  /-- A fault where a comma, the closing bracket or a key is due, with a comma
  before it or not. -/
  | cut (fault : Fault) (afterComma : Bool)
  deriving DecidableEq, Repr

/-- What had begun where a value breaks off: a text and a bracket count as
nothing. -/
inductive Begun where
  | nothing
  | nullWord
  | plain
  deriving DecidableEq, Repr

inductive Document where
  | null
  | bool (value : Bool)
  | number (value : Number)
  | string (value : String)
  | array (items : List Document) (ending : Ending)
  | object (fields : List (Except Fault String × Document)) (ending : Ending)
  /-- No value stands here, though one may have begun.  `whenSkipped` is the fault
  of a reader that only passes over it; there is none when it can be passed over. -/
  | broken (begun : Begun) (asValue : Fault) (whenSkipped : Option Fault)

namespace Document

instance : Inhabited Document := ⟨.null⟩

/-! ## Passing over a document, and its value -/

def checkEnding : Ending → Except Fault Unit
  | .closed => .ok ()
  | .cut fault _ => .error fault

mutual

def skip : Document → Except Fault Unit
  | .null | .bool _ | .number _ | .string _ => .ok ()
  | .broken _ _ none => .ok ()
  | .broken _ _ (some fault) => .error fault
  | .array items ending => do
      skipItems items
      checkEnding ending
  | .object fields ending => do
      skipFields fields
      checkEnding ending

def skipItems : List Document → Except Fault Unit
  | [] => .ok ()
  | item :: rest => do
      skip item
      skipItems rest

def skipFields : List (Except Fault String × Document) → Except Fault Unit
  | [] => .ok ()
  | (_, found) :: rest => do
      skip found
      skipFields rest

end

mutual

def toValue (room : Room) : Document → Except Fault Value
  | .null => .ok .null
  | .bool b => .ok (.bool b)
  | .number n => .ok (.number n)
  | .string s => .ok (.string s)
  | .broken _ fault _ => .error fault
  | .array items ending => do
      let room ← room.enter
      let items ← toItems room items
      checkEnding ending
      .ok (.array items)
  | .object fields ending => do
      let room ← room.enter
      let fields ← toFields room fields
      checkEnding ending
      .ok (.ofFields fields)

def toItems (room : Room) : List Document → Except Fault (List Value)
  | [] => .ok []
  | item :: rest => do
      let item ← toValue room item
      let rest ← toItems room rest
      .ok (item :: rest)

def toFields (room : Room) :
    List (Except Fault String × Document) → Except Fault (List (String × Value))
  | [] => .ok []
  | (key, found) :: rest => do
      let key ← key
      let found ← toValue room found
      let rest ← toFields room rest
      .ok ((key, found) :: rest)

end

mutual

def ofValue : Value → Document
  | .null => .null
  | .bool b => .bool b
  | .number n => .number n
  | .string s => .string s
  | .array items => .array (ofItems items) .closed
  | .object fields => .object (ofFields fields) .closed

def ofItems : List Value → List Document
  | [] => []
  | item :: rest => ofValue item :: ofItems rest

def ofFields : List (String × Value) → List (Except Fault String × Document)
  | [] => []
  | (key, found) :: rest => (.ok key, ofValue found) :: ofFields rest

end

end Document

end TabRelay.Json
