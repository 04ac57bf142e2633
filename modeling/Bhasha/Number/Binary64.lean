import Bhasha.Number.Power

namespace Bhasha.Binary64

/-!
# Magnitudes of binary64 numbers

The bits of a double without its sign bit, read as a natural number, are the
*code* of its magnitude.  Codes are ordered as the magnitudes are, and every
finite magnitude is a whole number of *units* of `2 ^ -1074`, so exact
arithmetic on magnitudes is arithmetic on natural numbers.

`nearestCode` rounds a quotient to the nearest magnitude, and a quotient
halfway between two magnitudes to the one with the even code.
-/

/-- The code of infinity, one more than the code of the largest finite magnitude. -/
def infinity : Nat := 2047 * 2 ^ 52

/-- The magnitude of a code, in units of `2 ^ -1074`. -/
def units (code : Nat) : Nat :=
  if code < 2 ^ 52 then code
  else (2 ^ 52 + code % 2 ^ 52) <<< (code / 2 ^ 52 - 1)

/-- The code of the largest magnitude that is at most a number of units. -/
def floorCode (amount : Nat) : Nat :=
  let shift := amount.log2 - 52
  shift * 2 ^ 52 + amount >>> shift

/-- The code of the magnitude nearest to a quotient of units; ties go to the even code. -/
def nearestCode (numerator denominator : Nat) : Nat :=
  let below := floorCode (numerator / denominator)
  let middle := (units below + units (below + 1)) * denominator
  let nearest :=
    if 2 * numerator < middle then below
    else if middle < 2 * numerator then below + 1
    else below + below % 2
  min nearest infinity

/-- The code of the magnitude nearest to a natural number. -/
def codeOfNat (n : Nat) : Nat := nearestCode (n * 2 ^ 1074) 1

/-- The code of the product of two finite magnitudes. -/
def product (first second : Nat) : Nat :=
  nearestCode (units first * units second) (2 ^ 1074)

/-- The code of the quotient of two finite magnitudes, of which the second is not zero. -/
def quotient (first second : Nat) : Nat :=
  nearestCode (units first * 2 ^ 1074) (units second)

/-- The code of a number's magnitude. -/
def code (x : Float) : Nat := x.toBits.toNat % 2 ^ 63

/-- The sign bit of a number is set. -/
def isNegative (x : Float) : Bool := 2 ^ 63 ≤ x.toBits.toNat

/-- The number with a given sign and magnitude. -/
def ofCode (negative : Bool) (code : Nat) : Float :=
  Float.ofBits (UInt64.ofNat (code + if negative then 2 ^ 63 else 0))

/-- The number nearest to a natural number. -/
def ofNat (n : Nat) : Float := ofCode false (codeOfNat n)

/--
The remainder of a division whose quotient is cut off toward zero.

It is exact, it has the sign of the dividend, and it is no number when the
dividend is infinite or the divisor is zero.
-/
def remainder (dividend divisor : Float) : Float :=
  let upper := code dividend
  let lower := code divisor
  if infinity ≤ upper || infinity < lower || lower = 0 then 0.0 / 0.0
  else if lower = infinity then dividend
  else ofCode (isNegative dividend) (floorCode (units upper % units lower))

end Bhasha.Binary64
