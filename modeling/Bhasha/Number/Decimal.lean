import Bhasha.Number.Binary64

namespace Bhasha

/-!
# Decimal numbers and the doubles nearest to them

A decimal is a whole number of digits scaled by a power of ten.
`Decimal.nearestCode` gives the double nearest to a decimal, and
`Decimal.shortest` the decimal with the fewest digits that is read back as a
given double.

The digits of the shortest decimal lie on the coarsest grid of multiples of a
power of ten that has a point in the interval of numbers which round to the
double.  Of two such points the nearer one is taken, and a `Tie` decides when
both are equally near.
-/

/-- The number `digits * 10 ^ exponent`. -/
structure Decimal where
  digits : Nat
  exponent : Int
  deriving Repr, DecidableEq

namespace Decimal

/--
The code of the double nearest to a decimal.

Above `10 ^ 400` every nonzero decimal is infinite, and below `2 ^ -1100`
every decimal is zero, so no larger power of ten has to be computed.
-/
def nearestCode (decimal : Decimal) : Nat :=
  match decimal.exponent with
  | .ofNat power =>
      if decimal.digits = 0 then 0
      else if 400 < power then Binary64.infinity
      else Binary64.nearestCode (decimal.digits * 10 ^ power * 2 ^ 1074) 1
  | .negSucc power =>
      if decimal.digits.log2 + 1100 < power + 1 then 0
      else Binary64.nearestCode (decimal.digits * 2 ^ 1074) (10 ^ (power + 1))

/-- The double nearest to a decimal, with a sign of its own. -/
def toFloat (negative : Bool) (decimal : Decimal) : Float :=
  Binary64.ofCode negative decimal.nearestCode

/-- Which of two neighbouring grid points is taken when a number lies halfway between them. -/
inductive Tie where
  | upper
  | even
  deriving Repr, DecidableEq

/-- The grid point taken for a number halfway between a point and the next one. -/
def Tie.pick (tie : Tie) (below : Nat) : Nat :=
  match tie with
  | upper => below + 1
  | even => below + below % 2

/--
The numbers that round to one double, measured in grid steps.

With `step` as the size of a grid step, the double is `value / step` steps and
the interval reaches from `lower / step` to `upper / step`; its ends belong to
it when `closed` is set.
-/
structure Interval where
  value : Nat
  lower : Nat
  upper : Nat
  step : Nat
  closed : Bool

namespace Interval

/-- A grid point lies in the interval. -/
def contains (interval : Interval) (point : Nat) : Bool :=
  let place := point * interval.step
  if interval.closed then interval.lower ≤ place && place ≤ interval.upper
  else interval.lower < place && place < interval.upper

/-- The grid point nearest to the double. -/
def nearest (tie : Tie) (interval : Interval) : Nat :=
  let below := interval.value / interval.step
  let rest := interval.value % interval.step
  if 2 * rest < interval.step then below
  else if interval.step < 2 * rest then below + 1
  else tie.pick below

/-- The grid point in the interval that is nearest to the double, if there is one. -/
def pick? (tie : Tie) (interval : Interval) : Option Nat :=
  let below := interval.value / interval.step
  match interval.contains below, interval.contains (below + 1) with
  | true, true => some (interval.nearest tie)
  | true, false => some below
  | false, true => some (below + 1)
  | false, false => none

/-- The same interval on the grid that is ten times finer. -/
def refine (interval : Interval) : Interval :=
  { interval with
    value := 10 * interval.value
    lower := 10 * interval.lower
    upper := 10 * interval.upper }

/-- The first grid point found on ever finer grids. -/
def search (tie : Tie) : Nat → Int → Interval → Decimal
  | 0, exponent, interval => ⟨interval.value / interval.step, exponent⟩
  | grids + 1, exponent, interval =>
      match interval.pick? tie with
      | some point => ⟨point, exponent⟩
      | none => search tie grids (exponent - 1) interval.refine

/-- The numbers that round to the double of a code, on the grid of one power of ten. -/
def ofCode (code : Nat) (exponent : Int) : Interval :=
  let value := Binary64.units code
  let lower := Binary64.units (code - 1) + value
  let upper := value + Binary64.units (code + 1)
  let up := 10 ^ exponent.toNat
  let down := 10 ^ (-exponent).toNat
  { value := 2 * value * down
    lower := lower * down
    upper := upper * down
    step := 2 ^ 1075 * up
    closed := code % 2 = 0 }

end Interval

/-- An exponent of ten whose power is above twice the double of a code. -/
def coarsestExponent (code : Nat) : Int :=
  let binary : Int := ((Binary64.units code).log2 : Int) + 2 - 1074
  if 0 ≤ binary then binary * 4 / 13 + 1 else -(-binary * 3 / 10)

/--
The decimal with the fewest digits that reads back as the double of a code.

The grids are tried from one whose step is larger than the double down to
`10 ^ -324`, whose step is smaller than the distance between any two doubles.
-/
def shortest (tie : Tie) (code : Nat) : Decimal :=
  let exponent := coarsestExponent code
  Interval.search tie (exponent + 325).toNat exponent (Interval.ofCode code exponent)

end Decimal

end Bhasha
