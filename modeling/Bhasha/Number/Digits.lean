import Bhasha.Number.Power

namespace Bhasha.Reading

/-!
# Numbers written by digits

`digits` is the number that a text of decimal digits writes, and `radixDigits?`
the number of a text in another radix, as long as 64 bits hold it.

A text of decimal digits may be very long.  Its digits are gathered in short
runs, and runs of equal length are joined, so that most multiplications are of
numbers of like size; `digitsFrom_eq_foldl` says that the result is the number
found digit by digit.
-/

/-- The value of a digit in a radix up to sixteen, if the character is one. -/
def digitValue? (radix : Nat) (c : Char) : Option Nat :=
  let value? :=
    if '0' ≤ c ∧ c ≤ '9' then some (c.toNat - '0'.toNat)
    else if 'a' ≤ c ∧ c ≤ 'f' then some (c.toNat - 'a'.toNat + 10)
    else if 'A' ≤ c ∧ c ≤ 'F' then some (c.toNat - 'A'.toNat + 10)
    else none
  value?.filter (· < radix)

/-- A character is one of the ten decimal digits. -/
def isDigit (c : Char) : Bool := '0' ≤ c && c ≤ '9'

/-- A number with one more decimal digit at its end. -/
def appendDigit (value : Nat) (c : Char) : Nat := 10 * value + (c.toNat - '0'.toNat)

/-- A run of digits: the number that they write, and the power of ten with as many zeros. -/
structure Part where
  number : Nat
  scale : Nat

namespace Part

/-- The run without digits. -/
def empty : Part := ⟨0, 1⟩

/-- A run with one more digit at its end. -/
def append (part : Part) (c : Char) : Part := ⟨appendDigit part.number c, 10 * part.scale⟩

/-- The number that runs write together, the last run first. -/
def total : List Part → Nat
  | [] => 0
  | part :: before => total before * part.scale + part.number

/-- Put a run after others, and join the runs at the end that are no longer than what follows. -/
def join (part : Part) : List Part → List Part
  | [] => [part]
  | last :: before =>
      if last.scale ≤ part.scale then
        join ⟨last.number * part.scale + part.number, last.scale * part.scale⟩ before
      else part :: last :: before

/-- Joining runs does not change the number that they write together. -/
theorem total_join (part : Part) (parts : List Part) :
    total (join part parts) = total parts * part.scale + part.number := by
  induction parts generalizing part with
  | nil => rfl
  | cons last before ih =>
      unfold join
      split
      · rw [ih]
        simp only [total, Nat.add_mul, Nat.mul_assoc, Nat.add_assoc]
      · rfl

end Part

/--
A number that grows by digits at its end.

Digits are added to a short run, and runs of equal length are joined; so a long
number is not multiplied for every digit.
-/
structure Tally where
  parts : List Part
  last : Part

namespace Tally

/-- A number to which no digit was added. -/
def ofNat (n : Nat) : Tally := ⟨[⟨n, 1⟩], .empty⟩

/-- The number of a tally. -/
def value (tally : Tally) : Nat := Part.total tally.parts * tally.last.scale + tally.last.number

/-- The scale at which the last run is full. -/
def fullScale : Nat := 10 ^ 256

/-- A tally whose last run is put to the others when it is full. -/
def settle (tally : Tally) : Tally :=
  if tally.last.scale < fullScale then tally
  else ⟨tally.last.join tally.parts, .empty⟩

/-- A tally with one more digit at its end. -/
def append (tally : Tally) (c : Char) : Tally := settle ⟨tally.parts, tally.last.append c⟩

@[simp] theorem value_ofNat (n : Nat) : (ofNat n).value = n := by
  simp [ofNat, value, Part.total, Part.empty]

@[simp] theorem value_settle (tally : Tally) : tally.settle.value = tally.value := by
  unfold settle
  split
  · rfl
  · simp [value, Part.total_join, Part.empty]

/-- A digit at the end of a tally is a digit at the end of its number. -/
@[simp] theorem value_append (tally : Tally) (c : Char) :
    (tally.append c).value = appendDigit tally.value c := by
  rw [append, value_settle]
  simp only [value, Part.append, appendDigit, Nat.mul_add, Nat.add_assoc, Nat.mul_left_comm]

end Tally

/-- The number written by decimal digits, after a number already read. -/
def digitsFrom (start : Nat) (digits : List Char) : Nat :=
  (digits.foldl Tally.append (Tally.ofNat start)).value

/-- Digits are appended to a number one after the other. -/
theorem digitsFrom_eq_foldl (start : Nat) (digits : List Char) :
    digitsFrom start digits = digits.foldl appendDigit start := by
  have general (tally : Tally) :
      (digits.foldl Tally.append tally).value = digits.foldl appendDigit tally.value := by
    induction digits generalizing tally with
    | nil => rfl
    | cons c rest ih => rw [List.foldl_cons, List.foldl_cons, ih, Tally.value_append]
  rw [digitsFrom, general, Tally.value_ofNat]

/-- The number written by decimal digits. -/
def digits (text : List Char) : Nat := digitsFrom 0 text

/-- The number below `2 ^ 64` written by digits of a radix and no other characters. -/
def radixDigits? (radix : Nat) : List Char → Option Nat
  | [] => none
  | text =>
      text.foldlM
        (fun value c => ((digitValue? radix c).map (radix * value + ·)).filter (· < 2 ^ 64)) 0

end Bhasha.Reading
