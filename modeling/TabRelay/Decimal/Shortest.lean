import TabRelay.Decimal.Binary64

/-!
# The fewest digits that read back

Every real number in an interval around a floating point number rounds to it.
`shortest` walks the decimal grids from coarse to fine and stops at the first
that has a point in this interval.  A grid with a point in the interval has one
next to the number itself, so two neighbours are enough to look at.  A `Tie`
decides between two that are equally near.
-/

namespace TabRelay.Decimal

structure Scaled where
  digits : Nat
  exponent : Int
  deriving DecidableEq, Repr

inductive Tie where
  | toEven
  | up
  deriving DecidableEq, Repr

namespace Shortest

/-- The reals that round to `mantissa * 2 ^ exponent`, in quarters of the unit:
the number itself, the two ends, and whether the ends belong to them. -/
structure Interval where
  value : Nat
  low : Nat
  high : Nat
  closed : Bool

/-- Below a power of two the neighbours are twice as close. -/
def interval (mantissa : Nat) (exponent : Int) : Interval where
  value := 4 * mantissa
  low :=
    if 2 * mantissa = Binary64.mantissaLimit ∧ Binary64.leastExponent < exponent then
      4 * mantissa - 1
    else 4 * mantissa - 2
  high := 4 * mantissa + 2
  closed := mantissa % 2 = 0

def pointOn? (tie : Tie) (i : Interval) (exponent grid : Int) : Option Nat :=
  let step := Nat.pow 10 grid.toNat * Nat.pow 2 (2 - exponent).toNat
  let unit := Nat.pow 2 (exponent - 2).toNat * Nat.pow 10 (-grid).toNat
  let isInside := fun n =>
    if i.closed then i.low * unit ≤ n * step ∧ n * step ≤ i.high * unit
    else i.low * unit < n * step ∧ n * step < i.high * unit
  let below := i.value * unit / step
  let above := below + 1
  if isInside below then
    if isInside above then
      let middle := (2 * below + 1) * step
      if 2 * i.value * unit < middle then some below
      else if middle < 2 * i.value * unit then some above
      else if tie = .toEven ∧ below % 2 = 0 then some below
      else some above
    else some below
  else if isInside above then some above
  else none

def search (tie : Tie) (i : Interval) (exponent : Int) : Nat → Int → Scaled
  | 0, grid => ⟨i.value / 4, grid⟩
  | fuel + 1, grid =>
      match pointOn? tie i exponent grid with
      | some digits => ⟨digits, grid⟩
      | none => search tie i exponent fuel (grid - 1)

def coarsestGrid (mantissa : Nat) (exponent : Int) : Int :=
  ((Nat.log2 mantissa : Int) + 1 + exponent) * 30103 / 100000 + 1

end Shortest

/-- The decimal with the fewest digits that reads back as the positive number
`mantissa * 2 ^ exponent`, and among those the nearest. -/
def shortest (tie : Tie) (mantissa : Nat) (exponent : Int) : Scaled :=
  Shortest.search tie (Shortest.interval mantissa exponent) exponent 25
    (Shortest.coarsestGrid mantissa exponent)

end TabRelay.Decimal
