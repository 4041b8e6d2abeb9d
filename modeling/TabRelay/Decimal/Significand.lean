import TabRelay.Decimal.Binary64

/-!
# Decimals read into one word

A decimal is read as the leading digits that fit a word of 64 bits and a power
of ten.  `Significand.toBinary64` rounds the word and then scales it, so that
the number is near to the decimal, though not always the nearest.
-/

namespace TabRelay.Decimal

def wordLimit : Nat := 0x10000000000000000

structure Significand where
  digits : Nat
  exponent : Int
  digits_lt : digits < wordLimit
  deriving DecidableEq, Repr

namespace Significand

/-! ## The digits that fit -/

def zero : Significand := ⟨0, 0, by decide⟩

def push? (s : Significand) (d : Char) : Option Significand :=
  let digits := 10 * s.digits + (d.toNat - '0'.toNat)
  if h : digits < wordLimit then some ⟨digits, s.exponent, h⟩ else none

def shift (s : Significand) (exponent : Int) : Significand :=
  { s with exponent := s.exponent + exponent }

/-- Digits before the point.  From the first that does not fit they only count
as powers of ten. -/
def readWhole (s : Significand) : List Char → Significand
  | [] => s
  | d :: ds =>
      match s.push? d with
      | some longer => readWhole longer ds
      | none => s.shift (ds.length + 1)

/-- Digits after the point.  From the first that does not fit they are left out. -/
def readFraction (s : Significand) : List Char → Significand
  | [] => s
  | d :: ds =>
      match s.push? d with
      | some longer => readFraction (longer.shift (-1)) ds
      | none => s

def ofDigits (whole fraction : List Char) (exponent : Int) : Significand :=
  ((zero.readWhole whole).readFraction fraction).shift exponent

/-! ## The number they stand for -/

def greatestTen : Nat := 308

def tenPower (k : Nat) : Binary64 := .ofRatio false (Nat.pow 10 k) 1

/-- A rounded product with a power of ten, or a rounded quotient.  One beyond the
range of the format is divided by in two steps. -/
def scale (x : Binary64) (exponent : Int) : Binary64 :=
  if x.isZero then x
  else if greatestTen < exponent then .infinite x.isNegative
  else if 0 ≤ exponent then x.mul (tenPower exponent.toNat)
  else
    let places := (-exponent).toNat
    (x.div (tenPower (min places greatestTen))).div
      (tenPower (min (places - greatestTen) greatestTen))

def toBinary64 (negative : Bool) (s : Significand) : Binary64 :=
  scale (.ofRatio negative s.digits 1) s.exponent

end Significand

end TabRelay.Decimal
