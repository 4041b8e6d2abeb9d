import TabRelay.Json.Document
import TabRelay.Text.Shown

/-!
# Why a value is refused

A value that is JSON but not of the expected form is refused.  `Refusal` names
the cause, and `Refusal.message` words it.
-/

namespace TabRelay.Decoding

open TabRelay.Decimal TabRelay.Json TabRelay.Text

inductive Found where
  | null
  | bool (value : Bool)
  | int (value : Int)
  | float (value : Binary64)
  | string (value : String)
  | sequence
  | map
  | bareVariant
  deriving DecidableEq, Repr

def Found.text : Found → String
  | null => "null"
  | bool true => "boolean `true`"
  | bool false => "boolean `false`"
  | int n => "integer `" ++ String.ofList (intChars n) ++ "`"
  | float x => "floating point `" ++ Layout.stored.text x ++ "`"
  | string s => "string " ++ shown s
  | sequence => "sequence"
  | map => "map"
  | bareVariant => "unit variant"

inductive Refusal where
  | invalidType (found : Found) (expected : String)
  | invalidLength (length : Nat) (expected : String)
  | notOneKey
  | missingField (name : String)
  | duplicateField (name : String)
  | unknownField (name : String) (known : List String)
  | unknownVariant (name : String) (known : List String)
  deriving DecidableEq, Repr

def ticked (name : String) : String := "`" ++ name ++ "`"

def choice (names : List String) : String :=
  match names with
  | [a, b] => ticked a ++ " or " ++ ticked b
  | names => "one of " ++ ", ".intercalate (names.map ticked)

def Refusal.message : Refusal → String
  | invalidType found expected => "invalid type: " ++ found.text ++ ", expected " ++ expected
  | invalidLength length expected =>
      "invalid length " ++ toString length ++ ", expected " ++ expected
  | notOneKey => "invalid value: map, expected map with a single key"
  | missingField name => "missing field " ++ ticked name
  | duplicateField name => "duplicate field " ++ ticked name
  | unknownField name known =>
      "unknown field " ++ ticked name ++ ", expected " ++ choice known
  | unknownVariant name known =>
      "unknown variant " ++ ticked name ++ ", expected " ++ choice known

inductive DecodeError where
  | fault (fault : Fault)
  | refused (refusal : Refusal)
  deriving DecidableEq, Repr

abbrev Decoded := Except DecodeError

end TabRelay.Decoding
