import Bhasha.Number.Decimal
import Bhasha.Number.Digits
import Bhasha.Text.Blank

namespace Bhasha

/-!
# Numbers read from text

`readLiteral` reads the number literals of programs.  `readDecimal?` reads a
signed decimal with an optional exponent.  `readNumeric` reads a whole text the
way a comparison of a number with a text does: outer blanks are dropped, the
empty text is zero, infinities are spelled out, and `0x`, `0o` and `0b` mark
other radices.
-/

namespace Reading

/-- The decimal with some digits before and some after its point. -/
def decimalOf (whole fraction : List Char) : Decimal :=
  ⟨digitsFrom (digits whole) fraction, -(fraction.length : Int)⟩

/-- The digits at the front of a text, those after a point that follows them, and the rest. -/
def splitPoint (text : List Char) : List Char × List Char × List Char :=
  match text.dropWhile isDigit with
  | '.' :: rest => (text.takeWhile isDigit, rest.takeWhile isDigit, rest.dropWhile isDigit)
  | rest => (text.takeWhile isDigit, [], rest)

/-- The number of a literal made of digits and at most one point. -/
def readLiteral (text : List Char) : Float :=
  let (whole, fraction, _) := splitPoint text
  (decimalOf whole fraction).toFloat false

/-- A sign at the front of a text, and the rest; no sign is positive. -/
def splitSign : List Char → Bool × List Char
  | '-' :: rest => (true, rest)
  | '+' :: rest => (false, rest)
  | text => (false, text)

/-- The number of an exponent: digits after it has reached `2 ^ 16` do not count. -/
def exponentDigits (text : List Char) : Nat :=
  text.foldl (fun value c => if value < 2 ^ 16 then appendDigit value c else value) 0

/-- The exponent written at the end of a decimal, zero when nothing is written. -/
def readExponent? : List Char → Option Int
  | [] => some 0
  | mark :: text =>
      if mark = 'e' ∨ mark = 'E' then
        let (negative, body) := splitSign text
        if body ≠ [] ∧ body.all isDigit then
          some (if negative then -(exponentDigits body : Int) else exponentDigits body)
        else none
      else none

/--
The number of a signed decimal.

A decimal has a digit before or after its point, the point may be missing, and
an exponent of at least one digit may follow, of which only the digits of
`exponentDigits` count.
-/
def readDecimal? (text : List Char) : Option Float :=
  let (negative, unsigned) := splitSign text
  let (whole, fraction, rest) := splitPoint unsigned
  if whole = [] ∧ fraction = [] then none
  else
    (readExponent? rest).map fun power =>
      let decimal := decimalOf whole fraction
      Decimal.toFloat negative ⟨decimal.digits, decimal.exponent + power⟩

/-- The number of a whole number below `2 ^ 64` written in a radix. -/
def readRadix? (radix : Nat) (text : List Char) : Option Float :=
  (radixDigits? radix text).map Binary64.ofNat

/-- The number of a text without outer blanks. -/
def readTrimmed? : List Char → Option Float
  | [] => some (Binary64.ofCode false 0)
  | '0' :: 'x' :: body | '0' :: 'X' :: body => readRadix? 16 body
  | '0' :: 'o' :: body | '0' :: 'O' :: body => readRadix? 8 body
  | '0' :: 'b' :: body | '0' :: 'B' :: body => readRadix? 2 body
  | text =>
      let (negative, unsigned) := splitSign text
      if unsigned = "Infinity".toList then
        some (Binary64.ofCode negative Binary64.infinity)
      else readDecimal? text

/-- The number that a text stands for beside a number; a text that is no number gives none. -/
def readNumeric (text : String) : Float :=
  (readTrimmed? (Text.trim text.toList)).getD (0.0 / 0.0)

end Reading

end Bhasha
