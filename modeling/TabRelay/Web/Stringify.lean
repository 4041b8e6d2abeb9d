import TabRelay.Change
import TabRelay.Web.Equality

/-!
# The JSON text of a JavaScript value

Values without a text are left out of objects and are null in arrays.  A
`toJSON` method is asked for the value to be written, once.  What is thrown on
the way ends the writing.
-/

namespace TabRelay.Web

open TabRelay.Decimal TabRelay.Text

namespace Value

/-- A field named `toJSON` that is a function: it returns undefined. -/
def hasPlainToJSON (fields : List (String × Value)) : Bool :=
  fields.any fun (key, v) => key = "toJSON" && v.isFunction

mutual

/-- The text of a value, if it has one.  `fresh` tells whether a `toJSON` method
of the value itself has still to be asked. -/
def stringifyChars (fresh : Bool) : Value → Except Value (Option (List Char))
  | undefined | function | symbol _ => .ok none
  | null => .ok (some ['n', 'u', 'l', 'l'])
  | bool true => .ok (some ['t', 'r', 'u', 'e'])
  | bool false => .ok (some ['f', 'a', 'l', 's', 'e'])
  | number (.finite negative mantissa exponent) =>
      .ok (some (Layout.web.chars (.finite negative mantissa exponent)))
  | number _ => .ok (some ['n', 'u', 'l', 'l'])
  | string s => .ok (some (quoted s))
  | bigint _ => .error typeError
  | map | error _ _ | port _ | app _ => .ok (some ['\x7b', '\x7d'])
  | element id =>
      .ok (some ('\x7b' :: quoted "id" ++ ':' :: quoted id ++ ['\x7d']))
  | array items => do
      let items ← stringifyItems items
      .ok (some ('[' :: items ++ [']']))
  | object fields =>
      if fresh && hasPlainToJSON fields then .ok none
      else do
        let fields ← stringifyFields fields
        .ok (some ('\x7b' :: fields ++ ['\x7d']))
  | cycle v => do
      let _ ← stringifyChars true v
      .error typeError
  | converting v =>
      if fresh then stringifyChars false v else .ok (some ['\x7b', '\x7d'])
  | throwing v => if fresh then .error v else .ok (some ['\x7b', '\x7d'])
  | trap v => if fresh then .error v else .ok (some ['\x7b', '\x7d'])

def stringifyItems : List Value → Except Value (List Char)
  | [] => .ok []
  | item :: rest => do
      let item ← stringifyChars true item
      let rest' ← stringifyItems rest
      let item := item.getD ['n', 'u', 'l', 'l']
      .ok (if rest.isEmpty then item else item ++ ',' :: rest')

def stringifyFields : List (String × Value) → Except Value (List Char)
  | [] => .ok []
  | (key, v) :: rest => do
      let v ← stringifyChars true v
      let rest ← stringifyFields rest
      match v with
      | none => .ok rest
      | some cs =>
          let field := quoted key ++ ':' :: cs
          .ok (if rest.isEmpty then field else field ++ ',' :: rest)

end

def stringify (v : Value) : Except Value (Option String) :=
  (stringifyChars true v).map fun cs => cs.map String.ofList

/-! ## Values in diagnostics -/

mutual

def shownInner : Value → String
  | undefined => "undefined"
  | null => "null"
  | bool true => "true"
  | bool false => "false"
  | number x => Layout.web.text x
  | string s => "\"" ++ s ++ "\""
  | symbol description => "Symbol(" ++ description ++ ")"
  | function => "Function"
  | bigint _ => "BigInt"
  | map => "Map"
  | error name message => name ++ ": " ++ message ++ "\nat host"
  | array items => "[" ++ shownItems items ++ "]"
  | v@(element _) | v@(object _) | v@(cycle _) | v@(converting _) | v@(throwing _) | v@(trap _)
  | v@(port _) | v@(app _) =>
      match v.stringify with
      | .ok (some text) => "Object(" ++ text ++ ")"
      | .ok none => "Object(undefined)"
      | .error _ => "Object"

def shownItems : List Value → String
  | [] => ""
  | [item] => shownInner item
  | item :: rest => shownInner item ++ ", " ++ shownItems rest

end

def shown (v : Value) : String := "JsValue(" ++ shownInner v ++ ")"

end Value

/-! ## Stored text -/

inductive EncodeError where
  | thrown (value : Value)
  | notSerializable
  deriving DecidableEq

def EncodeError.message : EncodeError → String
  | thrown value => "JSON.stringify threw: " ++ value.shown
  | notSerializable => "Value has no JSON representation"

def Value.stored (v : Value) : Except EncodeError String :=
  match v.stringify with
  | .error thrown => .error (.thrown thrown)
  | .ok none => .error .notSerializable
  | .ok (some text) => .ok text

instance : Storable Value where
  stored v :=
    match v.stored with
    | .ok text => .ok text
    | .error e => .error e.message

end TabRelay.Web
