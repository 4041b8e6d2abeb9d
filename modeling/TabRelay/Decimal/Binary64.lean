/-!
# Binary floating point numbers, exactly

A number of the 64-bit binary format is kept as its sign, an integer mantissa
and a power of two, so that reading and printing it are computations on
integers.  `Binary64.ofRatio` is the nearest such number to a quotient, a tie
going to the even mantissa; products and quotients are rounded by it.
-/

namespace TabRelay.Decimal

/-- The finite number is the mantissa times two to the exponent.  It is in
normal form when the mantissa is below `2 ^ 53`, and at least `2 ^ 52` unless
the exponent is the least one. -/
inductive Binary64 where
  | finite (negative : Bool) (mantissa : Nat) (exponent : Int)
  | infinite (negative : Bool)
  | nan
  deriving DecidableEq, Repr, Inhabited

namespace Binary64

def leastExponent : Int := -1074

def greatestExponent : Int := 971

def mantissaLimit : Nat := Nat.pow 2 53

def zero (negative : Bool) : Binary64 := .finite negative 0 leastExponent

def isZero : Binary64 → Bool
  | .finite _ 0 _ => true
  | _ => false

def isNaN : Binary64 → Bool
  | .nan => true
  | _ => false

/-! ## Rounding -/

def roundHalfEven (num den : Nat) : Nat :=
  let quotient := num / den
  let rest := num % den
  if den < 2 * rest ∨ (2 * rest = den ∧ quotient % 2 = 1) then quotient + 1 else quotient

/-- The exponent at which a positive quotient has a mantissa of 53 bits, or the
least exponent where that would be lower. -/
def exponentOf (num den : Nat) : Int :=
  let guess : Int := (Nat.log2 num : Int) - (Nat.log2 den : Int) - 53
  let tooLow :=
    if 0 ≤ guess then mantissaLimit * Nat.pow 2 guess.toNat * den ≤ num
    else mantissaLimit * den ≤ num * Nat.pow 2 (-guess).toNat
  max leastExponent (if tooLow then guess + 1 else guess)

def ofRatio (negative : Bool) (num den : Nat) : Binary64 :=
  if num = 0 then zero negative
  else
    let exponent := exponentOf num den
    let mantissa :=
      if 0 ≤ exponent then roundHalfEven num (den * Nat.pow 2 exponent.toNat)
      else roundHalfEven (num * Nat.pow 2 (-exponent).toNat) den
    let (mantissa, exponent) :=
      if mantissa = mantissaLimit then (mantissa / 2, exponent + 1) else (mantissa, exponent)
    if greatestExponent < exponent then .infinite negative
    else .finite negative mantissa exponent

def ofInt (n : Int) : Binary64 := ofRatio (decide (n < 0)) n.natAbs 1

/-! ## Products and quotients -/

def isNegative : Binary64 → Bool
  | .finite negative _ _ | .infinite negative => negative
  | .nan => false

def ofScaledRatio (negative : Bool) (num den : Nat) (exponent : Int) : Binary64 :=
  ofRatio negative (num * Nat.pow 2 exponent.toNat) (den * Nat.pow 2 (-exponent).toNat)

def mul : Binary64 → Binary64 → Binary64
  | .finite n m e, .finite n' m' e' => ofScaledRatio (n != n') (m * m') 1 (e + e')
  | .nan, _ | _, .nan => .nan
  | x, y =>
      if x.isZero || y.isZero then .nan else .infinite (x.isNegative != y.isNegative)

def div : Binary64 → Binary64 → Binary64
  | .finite n m e, .finite n' m' e' =>
      if m' ≠ 0 then ofScaledRatio (n != n') m m' (e - e')
      else if m ≠ 0 then .infinite (n != n')
      else .nan
  | .finite n _ _, .infinite n' => zero (n != n')
  | .infinite n, .finite n' _ _ => .infinite (n != n')
  | _, _ => .nan

end Binary64

end TabRelay.Decimal
