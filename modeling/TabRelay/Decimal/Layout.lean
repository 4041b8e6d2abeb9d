import TabRelay.Decimal.Digits
import TabRelay.Decimal.Shortest

/-!
# How a number is laid out

A number is written with its shortest digits, either positionally or with an
exponent.  A `Layout` holds the decisions that differ between the texts this
library writes: stored text, the text of a number in a web page, and the plain
text used in diagnostics.
-/

namespace TabRelay.Decimal

structure Layout where
  /-- Which of two equally near shortest decimals is written. -/
  tie : Tie
  /-- Least exponent of a positionally written number `d.ddd * 10 ^ exponent`. -/
  lowest : Int
  highest : Int
  integralPoint : Bool
  signedZero : Bool
  nanText : String
  infinityText : String

/-- Stored numbers are positional from `0.00001` to below `10 ^ 16`, and a
floating point number never looks like an integer. -/
def Layout.stored : Layout where
  tie := .toEven
  lowest := -5
  highest := 15
  integralPoint := true
  signedZero := true
  nanText := "null"
  infinityText := "null"

def Layout.web : Layout where
  tie := .toEven
  lowest := -6
  highest := 20
  integralPoint := false
  signedZero := false
  nanText := "NaN"
  infinityText := "Infinity"

/-- Plain numbers never have an exponent, and a tie goes up. -/
def Layout.plain : Layout where
  tie := .up
  lowest := -400
  highest := 400
  integralPoint := true
  signedZero := true
  nanText := "NaN"
  infinityText := "inf"

def zeros (n : Nat) : List Char := List.replicate n '0'

namespace Layout

def positional (layout : Layout) (digits : List Char) (exponent : Int) : List Char :=
  if exponent < 0 then '0' :: '.' :: zeros (-exponent - 1).toNat ++ digits
  else
    let whole := exponent.toNat + 1
    if digits.length ≤ whole then
      digits ++ zeros (whole - digits.length) ++ (if layout.integralPoint then ['.', '0'] else [])
    else digits.take whole ++ '.' :: digits.drop whole

def scientific (digits : List Char) (exponent : Int) : List Char :=
  digits.take 1 ++ (if digits.length ≤ 1 then [] else '.' :: digits.drop 1) ++
    'e' :: (if exponent < 0 then '-' else '+') :: natChars exponent.natAbs

def magnitude (layout : Layout) (mantissa : Nat) (exponent : Int) : List Char :=
  if mantissa = 0 then if layout.integralPoint then ['0', '.', '0'] else ['0']
  else
    let decimal := shortest layout.tie mantissa exponent
    let digits := natChars decimal.digits
    let leading := decimal.exponent + (digits.length : Int) - 1
    if layout.lowest ≤ leading ∧ leading ≤ layout.highest then positional layout digits leading
    else scientific digits leading

def chars (layout : Layout) : Binary64 → List Char
  | .nan => layout.nanText.toList
  | .infinite negative => (if negative then ['-'] else []) ++ layout.infinityText.toList
  | .finite negative mantissa exponent =>
      (if negative ∧ (mantissa ≠ 0 ∨ layout.signedZero) then ['-'] else []) ++
        magnitude layout mantissa exponent

def text (layout : Layout) (x : Binary64) : String := String.ofList (layout.chars x)

end Layout

end TabRelay.Decimal
