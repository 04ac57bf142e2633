import Bhasha.Json
import Bhasha.Number.Reading

namespace Bhasha.Json

/-!
# Numbers in JSON texts

A numeral is a sign and digits, which may be followed by a point with digits and
by an exponent.  `Numeral.split` cuts the longest one from the front of a text,
and `Numeral.isWellFormed` says which of them JSON admits.

The value of a numeral is found in two steps.  Its leading digits, as long as
they stay below `2 ^ 64`, are rounded to a double; that double is then multiplied
by a rounded power of ten, or divided by one.  Every step rounds, so the result
may be a neighbour of the double nearest to the numeral.
-/

/-- The parts of a written number: sign, digits before and after a point, and exponent. -/
structure Numeral where
  negative : Bool
  whole : List Char
  fraction? : Option (List Char)
  power? : Option (Bool × List Char)

namespace Numeral

/-- The whole part of a number: one zero, or digits that do not start with zero. -/
def isWholePart : List Char → Bool
  | [] => false
  | ['0'] => true
  | '0' :: _ => false
  | _ => true

/-- The digits after a point, if a point comes next, and the text after them. -/
def splitFraction : List Char → Option (List Char) × List Char
  | '.' :: rest => (some (rest.takeWhile Reading.isDigit), rest.dropWhile Reading.isDigit)
  | rest => (none, rest)

/-- The sign and digits of an exponent, if one comes next, and the text after them. -/
def splitPower : List Char → Option (Bool × List Char) × List Char
  | [] => (none, [])
  | mark :: text =>
      if mark = 'e' ∨ mark = 'E' then
        let signed := Reading.splitSign text
        (some (signed.1, signed.2.takeWhile Reading.isDigit), signed.2.dropWhile Reading.isDigit)
      else (none, mark :: text)

/-- A minus sign, if one comes next, and the text after it. -/
def splitMinus : List Char → Bool × List Char
  | '-' :: rest => (true, rest)
  | rest => (false, rest)

/-- The longest numeral at the front of a text, and the text after it. -/
def split (text : List Char) : Numeral × List Char :=
  let signed := splitMinus text
  let fraction := splitFraction (signed.2.dropWhile Reading.isDigit)
  let power := splitPower fraction.2
  (⟨signed.1, signed.2.takeWhile Reading.isDigit, fraction.1, power.1⟩, power.2)

/-- Every part that is written has a digit, and the whole part has no leading zero. -/
def isWellFormed (numeral : Numeral) : Bool :=
  isWholePart numeral.whole && numeral.fraction? != some [] &&
    numeral.power?.all fun entry => entry.2 != []

/-- Append digits to a number below `2 ^ 64` while it stays below, and count those taken. -/
def appendFrom (taken value : Nat) : List Char → Nat × Nat
  | [] => (value, taken)
  | c :: rest =>
      let next := Reading.appendDigit value c
      if next < 2 ^ 64 then appendFrom (taken + 1) next rest else (value, taken)

/-- The leading digits of a numeral as a whole number, and the power of ten that scales it. -/
def scaled (numeral : Numeral) : Decimal :=
  let (value, taken) := appendFrom 0 0 numeral.whole
  let (value, places) := appendFrom 0 value (numeral.fraction?.getD [])
  let power : Int :=
    match numeral.power? with
    | some (true, digits) => -(Reading.digits digits : Int)
    | some (false, digits) => Reading.digits digits
    | none => 0
  ⟨value, (numeral.whole.length - taken : Nat) - (places : Int) + power⟩

/-- The greatest power of ten that is finite as a double. -/
def greatestPower : Nat := 308

/-- The code of a power of ten, rounded. -/
def powerCode (power : Nat) : Nat := Decimal.nearestCode ⟨1, power⟩

/-- The code of a magnitude divided by a power of ten, in two divisions when the power is great. -/
def divide (code power : Nat) : Nat :=
  if power ≤ greatestPower then Binary64.quotient code (powerCode power)
  else
    let rest := min (power - greatestPower) greatestPower
    Binary64.quotient (Binary64.quotient code (powerCode greatestPower)) (powerCode rest)

/-- The code of a magnitude multiplied by a power of ten. -/
def multiply (code power : Nat) : Nat :=
  if power ≤ greatestPower then Binary64.product code (powerCode power)
  else if code = 0 then 0
  else Binary64.infinity

/-- The code of the magnitude that a numeral is read as. -/
def code (numeral : Numeral) : Nat :=
  let scaled := numeral.scaled
  let significand := Binary64.codeOfNat scaled.digits
  match scaled.exponent with
  | .ofNat power => multiply significand power
  | .negSucc power => divide significand (power + 1)

/-- The number of a numeral: whole unless a point, an exponent or a negative zero is written. -/
def value (numeral : Numeral) : Json :=
  let size := Reading.digits numeral.whole
  if numeral.fraction?.isSome || numeral.power?.isSome || (numeral.negative && size = 0) then
    .number (Binary64.ofCode numeral.negative numeral.code)
  else .integer (if numeral.negative then -(size : Int) else size)

/-- What is left of a text is no longer than the text. -/
theorem length_dropWhile_le (test : Char → Bool) (text : List Char) :
    (text.dropWhile test).length ≤ text.length :=
  (List.dropWhile_sublist test).length_le

/-- The text after a fraction is no longer than the text before it. -/
theorem length_splitFraction_le (text : List Char) :
    (splitFraction text).2.length ≤ text.length := by
  unfold splitFraction
  split
  · have := length_dropWhile_le Reading.isDigit
    simp only [List.length_cons]
    exact Nat.le_succ_of_le (this _)
  · exact Nat.le_refl _

/-- The text after a sign is no longer than the text before it. -/
theorem length_splitSign_le (text : List Char) :
    (Reading.splitSign text).2.length ≤ text.length := by
  unfold Reading.splitSign
  split <;> simp

/-- The text after an exponent is no longer than the text before it. -/
theorem length_splitPower_le (text : List Char) :
    (splitPower text).2.length ≤ text.length := by
  unfold splitPower
  split
  · exact Nat.le_refl _
  · rename_i mark more
    split
    · have dropped := length_dropWhile_le Reading.isDigit (Reading.splitSign more).2
      have signed := length_splitSign_le more
      simp only [List.length_cons]
      omega
    · exact Nat.le_refl _

/-- The text after a minus sign is no longer than the text before it. -/
theorem length_splitMinus_le (text : List Char) :
    (splitMinus text).2.length ≤ text.length := by
  unfold splitMinus
  split <;> simp

/-- A well-formed numeral takes at least one character. -/
theorem length_split_lt
    (text : List Char)
    (wellFormed : (split text).1.isWellFormed = true) :
    (split text).2.length < text.length := by
  have minus := length_splitMinus_le text
  have digits := List.takeWhile_append_dropWhile (p := Reading.isDigit) (l := (splitMinus text).2)
  have lengths := congrArg List.length digits
  rw [List.length_append] at lengths
  have fraction := length_splitFraction_le ((splitMinus text).2.dropWhile Reading.isDigit)
  have power := length_splitPower_le
    (splitFraction ((splitMinus text).2.dropWhile Reading.isDigit)).2
  have whole : 0 < ((splitMinus text).2.takeWhile Reading.isDigit).length := by
    rw [List.length_pos_iff]
    intro empty
    simp [isWellFormed, split, empty, isWholePart] at wellFormed
  simp only [split]
  omega

end Numeral

end Bhasha.Json
