import TabRelay.Decimal.Layout
import TabRelay.Text.Keyed
import TabRelay.Text.Quoted

/-!
# JSON values and their stored text

A number is either an integer of at most 64 bits or a floating point number.
The fields of an object are ordered by key, one for each key.  `Value.text` is
the compact text under which a value is stored.
-/

namespace TabRelay.Json

open TabRelay.Decimal TabRelay.Text

inductive Number where
  | int (value : Int)
  | float (value : Binary64)
  deriving DecidableEq, Repr, Inhabited

/-- Integers outside this range are read as floating point numbers. -/
def isWord (n : Int) : Bool := -0x8000000000000000 ≤ n && n < 0x10000000000000000

def Number.chars : Number → List Char
  | .int n => intChars n
  | .float x => Layout.stored.chars x

inductive Value where
  | null
  | bool (value : Bool)
  | number (value : Number)
  | string (value : String)
  | array (items : List Value)
  | object (fields : List (String × Value))
  deriving Inhabited

namespace Value

def int (n : Int) : Value := .number (.int n)

def nat (n : Nat) : Value := .number (.int n)

def ofFields (fields : List (String × Value)) : Value := .object (Keyed.ofPairs fields)

def ofOption {α : Type} (f : α → Value) : Option α → Value
  | none => .null
  | some a => f a

def ofText? (s : Option String) : Value := ofOption .string s

/-! ## Equality is decidable -/

mutual

def decideEq : (a b : Value) → Decidable (a = b)
  | .null, .null => .isTrue rfl
  | .bool a, .bool b =>
      if h : a = b then .isTrue (by rw [h]) else .isFalse fun e => h (by injection e)
  | .number a, .number b =>
      if h : a = b then .isTrue (by rw [h]) else .isFalse fun e => h (by injection e)
  | .string a, .string b =>
      if h : a = b then .isTrue (by rw [h]) else .isFalse fun e => h (by injection e)
  | .array as, .array bs =>
      match decideEqItems as bs with
      | .isTrue h => .isTrue (by rw [h])
      | .isFalse h => .isFalse fun e => h (by injection e)
  | .object as, .object bs =>
      match decideEqFields as bs with
      | .isTrue h => .isTrue (by rw [h])
      | .isFalse h => .isFalse fun e => h (by injection e)
  | .null, .bool _ | .null, .number _ | .null, .string _ | .null, .array _ | .null, .object _
  | .bool _, .null | .bool _, .number _ | .bool _, .string _ | .bool _, .array _
  | .bool _, .object _ | .number _, .null | .number _, .bool _ | .number _, .string _
  | .number _, .array _ | .number _, .object _ | .string _, .null | .string _, .bool _
  | .string _, .number _ | .string _, .array _ | .string _, .object _ | .array _, .null
  | .array _, .bool _ | .array _, .number _ | .array _, .string _ | .array _, .object _
  | .object _, .null | .object _, .bool _ | .object _, .number _ | .object _, .string _
  | .object _, .array _ => .isFalse fun e => by injection e

def decideEqItems : (as bs : List Value) → Decidable (as = bs)
  | [], [] => .isTrue rfl
  | [], _ :: _ => .isFalse fun e => by injection e
  | _ :: _, [] => .isFalse fun e => by injection e
  | a :: as, b :: bs =>
      match decideEq a b, decideEqItems as bs with
      | .isTrue h, .isTrue hs => .isTrue (by rw [h, hs])
      | .isFalse h, _ => .isFalse fun e => h (by injection e)
      | _, .isFalse hs => .isFalse fun e => hs (by injection e)

def decideEqFields : (as bs : List (String × Value)) → Decidable (as = bs)
  | [], [] => .isTrue rfl
  | [], _ :: _ => .isFalse fun e => by injection e
  | _ :: _, [] => .isFalse fun e => by injection e
  | (k, a) :: as, (l, b) :: bs =>
      if hk : k = l then
        match decideEq a b, decideEqFields as bs with
        | .isTrue h, .isTrue hs => .isTrue (by rw [hk, h, hs])
        | .isFalse h, _ =>
            .isFalse fun e => h (by injection e with e _; injection e)
        | _, .isFalse hs => .isFalse fun e => hs (by injection e)
      else .isFalse fun e => hk (by injection e with e _; injection e)

end

instance : DecidableEq Value := decideEq

/-! ## Stored text -/

mutual

def chars : Value → List Char
  | .null => ['n', 'u', 'l', 'l']
  | .bool true => ['t', 'r', 'u', 'e']
  | .bool false => ['f', 'a', 'l', 's', 'e']
  | .number n => n.chars
  | .string s => quoted s
  | .array [] => ['[', ']']
  | .array (item :: rest) => '[' :: chars item ++ moreItems rest
  | .object [] => ['\x7b', '\x7d']
  | .object ((key, value) :: rest) =>
      '\x7b' :: quoted key ++ ':' :: chars value ++ moreFields rest

def moreItems : List Value → List Char
  | [] => [']']
  | item :: rest => ',' :: chars item ++ moreItems rest

def moreFields : List (String × Value) → List Char
  | [] => ['\x7d']
  | (key, value) :: rest => ',' :: quoted key ++ ':' :: chars value ++ moreFields rest

end

def text (v : Value) : String := String.ofList v.chars

end Value

end TabRelay.Json
