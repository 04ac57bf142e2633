import Bhasha.Number.Decimal

namespace Bhasha

/-!
# Written numbers

A `NumberStyle` holds the decisions of a written form: which way ties go, where
positional notation ends, what a whole number ends with, and the words for the
numbers that have no digits.  `NumberStyle.write` lays out the shortest digits that
read back.

`NumberStyle.screen` is the form in which programs print numbers, and
`NumberStyle.json` the form of JSON texts.
-/

/--
The decisions of a written form of numbers.

The number `0.d₁d₂… * 10 ^ point` is written positionally when `point` is more
than `leastPoint` and at most `greatestPoint`; `wholeEnding` follows the digits
of a whole number that is written so.  When two shortest decimals are equally
near to a number, `tie` says which one is written.
-/
structure NumberStyle where
  tie : Decimal.Tie
  leastPoint : Int
  greatestPoint : Int
  wholeEnding : String
  zero : String
  negativeZero : String
  infinity : String
  negativeInfinity : String
  notANumber : String
  deriving Repr, DecidableEq

namespace NumberStyle

/-- Digits are positional from `1e-6` up to `1e21`, and zero has no sign. -/
def screen : NumberStyle where
  tie := .upper
  leastPoint := -6
  greatestPoint := 21
  wholeEnding := ""
  zero := "0"
  negativeZero := "0"
  infinity := "Infinity"
  negativeInfinity := "-Infinity"
  notANumber := "NaN"

/-- Digits are positional from `1e-5` up to `1e16`, and whole numbers end with `.0`. -/
def json : NumberStyle where
  tie := .even
  leastPoint := -5
  greatestPoint := 16
  wholeEnding := ".0"
  zero := "0.0"
  negativeZero := "-0.0"
  infinity := "null"
  negativeInfinity := "null"
  notANumber := "null"

/-- A run of zeros. -/
def zeros (count : Nat) : List Char := List.replicate count '0'

/-- The decimal digits of a natural number. -/
def decimalDigits (n : Nat) : List Char := Nat.toDigits 10 n

/-- The digits of `0.d₁d₂… * 10 ^ point` laid out around the decimal point. -/
def layout (style : NumberStyle) (digits : List Char) (point : Int) : List Char :=
  let count : Int := digits.length
  if count ≤ point ∧ point ≤ style.greatestPoint then
    digits ++ zeros (point - count).toNat ++ style.wholeEnding.toList
  else if 0 < point ∧ point ≤ style.greatestPoint then
    digits.take point.toNat ++ '.' :: digits.drop point.toNat
  else if style.leastPoint < point ∧ point ≤ 0 then
    '0' :: '.' :: zeros (-point).toNat ++ digits
  else
    let exponent := point - 1
    let sign := if 0 ≤ exponent then '+' else '-'
    let power := 'e' :: sign :: decimalDigits exponent.natAbs
    match digits with
    | [] => power
    | [digit] => digit :: power
    | digit :: more => digit :: '.' :: more ++ power

/-- The written form of a finite magnitude other than zero. -/
def writeMagnitude (style : NumberStyle) (code : Nat) : List Char :=
  let decimal := Decimal.shortest style.tie code
  let digits := decimalDigits decimal.digits
  style.layout digits (decimal.exponent + digits.length)

/-- The written form of a number. -/
def write (style : NumberStyle) (x : Float) : String :=
  let code := Binary64.code x
  let negative := Binary64.isNegative x
  if Binary64.infinity < code then style.notANumber
  else if code = Binary64.infinity then
    if negative then style.negativeInfinity else style.infinity
  else if code = 0 then
    if negative then style.negativeZero else style.zero
  else
    let body := style.writeMagnitude code
    String.ofList (if negative then '-' :: body else body)

end NumberStyle

end Bhasha
