import TabRelay.Decimal.Layout
import TabRelay.Snapshot
import TabRelay.Text.Quoted

/-!
# JavaScript values

The values that pass between an application in a web page and its storage.  An
object lists its own enumerable fields in the order in which they are
enumerated.  Besides plain data there are objects with a `toJSON` method that
returns or throws, objects that throw when a property is read, an object that
holds itself, and the ports of an application.
-/

namespace TabRelay.Web

open TabRelay.Decimal TabRelay.Text

inductive PortKind where
  | outgoing
  | incoming
  | both
  deriving DecidableEq, Repr

inductive Value where
  | undefined
  | null
  | bool (value : Bool)
  | number (value : Binary64)
  | string (value : String)
  | symbol (description : String)
  | bigint (digits : String)
  | function
  | map
  | element (id : String)
  | error (name message : String)
  | array (items : List Value)
  | object (fields : List (String × Value))
  /-- An object with the fields `v` and `me`, the second being the object itself. -/
  | cycle (value : Value)
  /-- An object whose `toJSON` method returns the value. -/
  | converting (result : Value)
  | throwing (thrown : Value)
  /-- Reading a property of the object throws the value. -/
  | trap (thrown : Value)
  | port (kind : PortKind)
  | app (name : String)
  deriving Inhabited

namespace Value

/-! ## Objects -/

/-- The number of an array index, whose key is its digits.  Array indices are
enumerated before all other fields. -/
def arrayIndex? (key : String) : Option Nat :=
  let ds := key.toList
  let n := digitsValue ds
  if ds.all Char.isDigit ∧ natChars n = ds ∧ n < 0xffffffff then some n else none

def setField (key : String) (value : Value) :
    List (String × Value) → List (String × Value)
  | [] => [(key, value)]
  | (k, v) :: rest => if k = key then (k, value) :: rest else (k, v) :: setField key value rest

def insertIndexed (index : Nat) (field : String × Value) :
    List (Nat × String × Value) → List (Nat × String × Value)
  | [] => [(index, field)]
  | (i, f) :: rest =>
      if index < i then (index, field) :: (i, f) :: rest
      else (i, f) :: insertIndexed index field rest

/-- Fields in the order of enumeration: indices by number, then the rest in the
order of creation. -/
def enumerated (fields : List (String × Value)) : List (String × Value) :=
  let indexed := fields.foldl (fun acc field =>
    match arrayIndex? field.1 with
    | some i => insertIndexed i field acc
    | none => acc) []
  indexed.map (·.2) ++ fields.filter fun field => (arrayIndex? field.1).isNone

def ofPairs (pairs : List (String × Value)) : Value :=
  .object (enumerated (pairs.foldl (fun fields (k, v) => setField k v fields) []))

/-- The object made by assigning each text to its key.  Assigning a text to
`__proto__` makes no field. -/
def ofSnapshot (s : Snapshot) : Value :=
  ofPairs ((s.filter fun (key, _) => key ≠ "__proto__").map fun (key, text) =>
    (key, .string text))

def ofText? : Option String → Value
  | none => .null
  | some s => .string s

/-- `typeof` is `object`, and the value is not null. -/
def isObject : Value → Bool
  | map | element _ | error _ _ | array _ | object _ | cycle _ | converting _ | throwing _
  | trap _ | port _ | app _ => true
  | _ => false

def isFunction : Value → Bool
  | function => true
  | _ => false

def isPort : Value → Bool
  | port _ => true
  | _ => false

def isNullish : Value → Bool
  | undefined | null => true
  | _ => false

def indexedFields : Nat → List Value → List (String × Value)
  | _, [] => []
  | i, item :: rest => (String.ofList (natChars i), item) :: indexedFields (i + 1) rest

def methodsOf : PortKind → List String
  | .outgoing => ["subscribe", "unsubscribe"]
  | .incoming => ["send"]
  | .both => ["subscribe", "unsubscribe", "send"]

def fields : Value → List (String × Value)
  | object fields => fields
  | array items => indexedFields 0 items
  | element id => [("id", .string id)]
  | cycle v => [("v", v), ("me", .cycle v)]
  | converting _ | throwing _ => [("toJSON", .function)]
  | port kind => (methodsOf kind).map fun name => (name, .function)
  | _ => []

/-- The value of a property.  Inherited properties are left out: none of them is
an object or a method that this library asks for. -/
def property (v : Value) (name : String) : Except Value Value :=
  match v with
  | trap thrown => .error thrown
  | v =>
      match v.fields.find? fun field => field.1 = name with
      | some (_, value) => .ok value
      | none => .ok .undefined

def typeError : Value := .error "TypeError" "..."

def closureError : Value := .error "Error" "closure invoked recursively or after being dropped"

end Value

end TabRelay.Web
