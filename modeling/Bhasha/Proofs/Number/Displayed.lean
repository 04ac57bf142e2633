import Bhasha.Proofs.Number.Fewest
import Bhasha.Proofs.Number.Order

namespace Bhasha.NumberStyle

/-!
# Displayed numbers

The scientific form of a number, `d₁.d₂…dₖ * 10 ^ E`, has the digits of its
shortest decimal.  A displayed number is a `Numeral` of the same value: its digits
stand around a point, or in front of a power of ten, and none of its zeros could be
left out.

`layoutChecked?` lays out digits with the operations of a machine, which fail for
negative counts, for positions beyond the end of a text, and for numbers of more
than 32 bits.  For the digits of a number none of them fails.
-/

open Reading

/-- Digits of which the first one is a zero only when there is no other. -/
structure Whole where
  digits : List Char
  nonempty : digits ≠ []
  allDigits : digits.all isDigit = true
  lead : digits.head? = some '0' → digits = ['0']

/--
A number as it is displayed.

The point stands in front of a fraction only, and a fraction does not end with a
zero.  A power of ten has a sign, and whether that is a minus is written here.
-/
structure Numeral where
  whole : Whole
  fraction : List Char
  decimals : fraction.all isDigit = true
  ending : fraction.getLast? ≠ some '0'
  power : Option (Bool × Whole)

namespace Numeral

/-- The text of a power of ten. -/
def powerText : Option (Bool × Whole) → List Char
  | none => []
  | some (negative, exponent) => 'e' :: (if negative then '-' else '+') :: exponent.digits

/-- The text of a displayed number. -/
def text (numeral : Numeral) : List Char :=
  numeral.whole.digits ++
    (if numeral.fraction = [] then [] else '.' :: numeral.fraction) ++ powerText numeral.power

/-- The exponent of a power of ten, and zero where there is none. -/
def exponentOf : Option (Bool × Whole) → ℤ
  | none => 0
  | some (negative, exponent) =>
      (if negative then -1 else 1) * Nat.ofDigitChars 10 exponent.digits 0

/-- The number that is displayed. -/
def value (numeral : Numeral) : ℚ :=
  (written numeral.whole.digits numeral.fraction (exponentOf numeral.power)).value

/-- A displayed number starts with a digit. -/
theorem exists_text (numeral : Numeral) :
    ∃ digit rest, numeral.text = digit :: rest ∧ isDigit digit = true := by
  obtain ⟨⟨digits, nonempty, allDigits, lead⟩, fraction, decimals, ending, power⟩ := numeral
  cases digits with
  | nil =>
      exact absurd rfl nonempty
  | cons digit more =>
      rw [List.all_cons, Bool.and_eq_true] at allDigits
      exact ⟨digit, _, rfl, allDigits.1⟩

end Numeral

/-- Digits without a zero at either end. -/
structure Significant (digits : List Char) : Prop where
  nonempty : digits ≠ []
  allDigits : digits.all isDigit = true
  first : digits.head? ≠ some '0'
  last : digits.getLast? ≠ some '0'

/-- The digits of a natural number are read as that number. -/
theorem ofDigitChars_decimalDigits (n : Nat) :
    Nat.ofDigitChars 10 (decimalDigits n) 0 = n :=
  Nat.ofDigitChars_ten_toDigits

/-- A positive number does not start with a zero. -/
theorem head?_decimalDigits
    {n : Nat}
    (positive : 0 < n) :
    (decimalDigits n).head? ≠ some '0' := by
  intro zero
  have bounds := decimalDigits_bounds positive
  have allDigits := all_decimalDigits n
  have number := ofDigitChars_decimalDigits n
  cases shape : decimalDigits n with
  | nil =>
      exact decimalDigits_ne_nil n shape
  | cons digit more =>
      rw [shape] at zero bounds allDigits number
      cases zero
      rw [List.all_cons, Bool.and_eq_true] at allDigits
      -- The digits after the zero are too few for the number.
      have fewer := ofDigitChars_lt allDigits.2
      have same : Nat.ofDigitChars 10 ('0' :: more) 0 = Nat.ofDigitChars 10 more 0 := by
        rw [Nat.ofDigitChars_cons]
        rfl
      rw [List.length_cons, Nat.add_sub_cancel] at bounds
      omega

/-- A number that is no multiple of ten does not end with a zero. -/
theorem getLast?_decimalDigits
    {n : Nat}
    (noTen : n % 10 ≠ 0) :
    (decimalDigits n).getLast? ≠ some '0' := by
  intro zero
  obtain ⟨front, shape⟩ := List.getLast?_eq_some_iff.mp zero
  have number := ofDigitChars_decimalDigits n
  have digit : '0'.toNat = 48 := rfl
  rw [shape, ofDigitChars_concat, appendDigit, digit] at number
  omega

theorem significant_decimalDigits
    {n : Nat}
    (positive : 0 < n)
    (noTen : n % 10 ≠ 0) :
    Significant (decimalDigits n) :=
  ⟨decimalDigits_ne_nil n, all_decimalDigits n, head?_decimalDigits positive,
    getLast?_decimalDigits noTen⟩

/-- The digits of a natural number. -/
def Whole.ofNat (n : Nat) : Whole where
  digits := decimalDigits n
  nonempty := decimalDigits_ne_nil n
  allDigits := all_decimalDigits n
  lead zero := by
    rcases Nat.eq_zero_or_pos n with rfl | positive
    · rfl
    · exact absurd zero (head?_decimalDigits positive)

/-- The number of the digits `d₁d₂…dₖ` as `d₁.d₂…dₖ * 10 ^ exponent`. -/
def scientificValue (digits : List Char) (exponent : ℤ) : ℚ :=
  (written (digits.take 1) (digits.drop 1) exponent).value

theorem scientificValue_eq
    {digits : List Char}
    (nonempty : digits ≠ [])
    (exponent : ℤ) :
    scientificValue digits exponent =
      (⟨Nat.ofDigitChars 10 digits 0, exponent + 1 - digits.length⟩ : Decimal).value := by
  have count := List.length_pos_iff.mpr nonempty
  have place : exponent - (digits.length - 1 : Nat) = exponent + 1 - digits.length := by
    omega
  rw [scientificValue, value_cut, place]

namespace Significant

variable {digits : List Char}

/-- Zeros at the end leave the first digit where it is. -/
def padded (significant : Significant digits) (count : Nat) : Numeral where
  whole := {
    digits := digits ++ zeros count
    nonempty := List.append_ne_nil_of_left_ne_nil significant.nonempty _
    allDigits := by
      rw [List.all_append, significant.allDigits, all_zeros, Bool.and_self]
    lead := by
      rw [List.head?_append_of_ne_nil _ significant.nonempty]
      exact fun zero => absurd zero significant.first }
  fraction := []
  decimals := rfl
  ending := nofun
  power := none

/-- A point among the digits leaves the first digit and the last one where they are. -/
def cut
    (significant : Significant digits)
    (front : Nat)
    (positive : 0 < front)
    (power : Option (Bool × Whole)) :
    Numeral where
  whole := {
    digits := digits.take front
    nonempty := by
      rw [Ne, List.take_eq_nil_iff, not_or]
      exact ⟨by omega, significant.nonempty⟩
    allDigits := (all_cut significant.allDigits front).1
    lead := by
      rw [List.head?_take, if_neg (by omega)]
      exact fun zero => absurd zero significant.first }
  fraction := digits.drop front
  decimals := (all_cut significant.allDigits front).2
  ending := by
    rw [List.getLast?_drop]
    split
    · exact nofun
    · exact significant.last
  power := power

/-- Behind a point and zeros the last digit stays the last. -/
def leading (significant : Significant digits) (count : Nat) : Numeral where
  whole := .ofNat 0
  fraction := zeros count ++ digits
  decimals := by
    rw [List.all_append, significant.allDigits, all_zeros, Bool.and_self]
  ending := by
    rw [List.getLast?_append_of_ne_nil _ significant.nonempty]
    exact significant.last
  power := none

theorem text_padded (significant : Significant digits) (count : Nat) :
    (significant.padded count).text = digits ++ zeros count := by
  simp [Numeral.text, Numeral.powerText, padded]

theorem text_cut
    (significant : Significant digits)
    {front : Nat}
    (positive : 0 < front)
    (inside : front < digits.length) :
    (significant.cut front positive none).text =
      digits.take front ++ '.' :: digits.drop front := by
  have behind : digits.drop front ≠ [] := by
    rw [Ne, List.drop_eq_nil_iff]
    omega
  simp [Numeral.text, Numeral.powerText, cut, behind]

theorem text_leading (significant : Significant digits) (count : Nat) :
    (significant.leading count).text = '0' :: '.' :: zeros count ++ digits := by
  simp [Numeral.text, Numeral.powerText, leading, Whole.ofNat, decimalDigits,
    significant.nonempty]

end Significant

/-- A power of ten with its sign. -/
def powerOf (exponent : ℤ) : Bool × Whole := (decide (exponent < 0), .ofNat exponent.natAbs)

theorem exponentOf_powerOf (exponent : ℤ) :
    Numeral.exponentOf (some (powerOf exponent)) = exponent := by
  simp only [Numeral.exponentOf, powerOf, Whole.ofNat, ofDigitChars_decimalDigits,
    decide_eq_true_eq]
  split <;> omega

theorem powerText_powerOf (exponent : ℤ) :
    Numeral.powerText (some (powerOf exponent)) =
      'e' :: (if 0 ≤ exponent then '+' else '-') :: decimalDigits exponent.natAbs := by
  simp only [Numeral.powerText, powerOf, Whole.ofNat, decide_eq_true_eq, ← not_le, ite_not]

/-- Digits are laid out as a numeral of their value, with a power of ten outside of the range. -/
theorem exists_numeral
    {digits : List Char}
    (significant : Significant digits)
    (exponent : ℤ) :
    ∃ numeral : Numeral,
      screen.layout digits (exponent + 1) = numeral.text ∧
        numeral.value = scientificValue digits exponent ∧
        (numeral.power.isSome ↔ 21 ≤ exponent ∨ exponent < -6) := by
  have count := List.length_pos_iff.mpr significant.nonempty
  have screenLeast : screen.leastPoint = -6 := rfl
  have screenGreatest : screen.greatestPoint = 21 := rfl
  have ending : screen.wholeEnding.toList = [] := rfl
  -- A numeral without a power of ten is laid out where its digits start near the point.
  have positional (near : ¬ (21 ≤ exponent ∨ exponent < -6)) :
      (none : Option (Bool × Whole)).isSome ↔ 21 ≤ exponent ∨ exponent < -6 :=
    iff_of_false Bool.false_ne_true near
  rw [scientificValue_eq significant.nonempty]
  dsimp only [layout]
  rw [screenLeast, screenGreatest, ending, List.append_nil, add_sub_cancel_right]
  by_cases whole : (digits.length : ℤ) ≤ exponent + 1 ∧ exponent + 1 ≤ 21
  · have place : exponent + 1 - digits.length =
        ((exponent + 1 - digits.length).toNat : ℤ) := by
      omega
    rw [if_pos whole, place]
    exact ⟨significant.padded _, (significant.text_padded _).symm, value_padded _ _,
      positional (by omega)⟩
  rw [if_neg whole]
  by_cases inside : 0 < exponent + 1 ∧ exponent + 1 ≤ 21
  · have place : exponent + 1 - digits.length =
        0 - ((digits.length - (exponent + 1).toNat : Nat) : ℤ) := by
      omega
    have positive : 0 < (exponent + 1).toNat := by
      omega
    rw [if_pos inside, place]
    exact ⟨significant.cut _ positive none, (significant.text_cut positive (by omega)).symm,
      value_cut _ _ _, positional (by omega)⟩
  rw [if_neg inside]
  by_cases small : -6 < exponent + 1 ∧ exponent + 1 ≤ 0
  · have place : exponent + 1 - digits.length =
        -(((-(exponent + 1)).toNat + digits.length : Nat) : ℤ) := by
      omega
    rw [if_pos small, place]
    exact ⟨significant.leading _, (significant.text_leading _).symm, value_leading _ _,
      positional (by omega)⟩
  · rw [if_neg small]
    refine ⟨significant.cut 1 Nat.one_pos (some (powerOf exponent)), ?_, ?_,
      iff_of_true rfl (by omega)⟩
    · simp only [Numeral.text, Significant.cut, powerText_powerOf]
      cases digits with
      | nil =>
          exact absurd rfl significant.nonempty
      | cons digit more =>
          cases more <;> rfl
    · rw [← scientificValue_eq significant.nonempty, Numeral.value, scientificValue]
      simp only [Significant.cut, exponentOf_powerOf]

/-!
## Layout by checked operations
-/

/-- A whole number, if it fits a signed word of 32 bits. -/
def word? (n : ℤ) : Option ℤ := if -2147483648 ≤ n ∧ n ≤ 2147483647 then some n else none

/-- A text before and after a position, if it reaches that far. -/
def splitAt? (text : List Char) (position : Nat) : Option (List Char × List Char) :=
  if position ≤ text.length then some (text.take position, text.drop position) else none

/-- The layout of the digits `d₁.d₂…dₖ * 10 ^ exponent`, by operations that may fail. -/
def layoutChecked? (style : NumberStyle) (digits : List Char) (exponent : ℤ) :
    Option (List Char) := do
  let count ← word? digits.length
  let power ← word? exponent
  let point ← word? (power + 1)
  if count ≤ point ∧ point ≤ style.greatestPoint then
    let missing ← word? (point - count)
    let zeroCount ← missing.toNat?
    some (digits ++ zeros zeroCount ++ style.wholeEnding.toList)
  else if 0 < point ∧ point ≤ style.greatestPoint then
    let position ← point.toNat?
    let (whole, fraction) ← splitAt? digits position
    some (whole ++ '.' :: fraction)
  else if style.leastPoint < point ∧ point ≤ 0 then
    some ('0' :: '.' :: zeros point.natAbs ++ digits)
  else
    let power ← word? (point - 1)
    let magnitude ← word? power.natAbs
    let (head, tail) ← splitAt? digits 1
    let sign := if 0 ≤ power then '+' else '-'
    let mantissa := if tail = [] then head else head ++ '.' :: tail
    some (mantissa ++ 'e' :: sign :: decimalDigits magnitude.natAbs)

theorem word?_eq
    {n : ℤ}
    (least : -2147483648 ≤ n)
    (greatest : n ≤ 2147483647) :
    word? n = some n :=
  if_pos ⟨least, greatest⟩

/-- None of the operations fails for digits that fit a word, and their result is the layout. -/
theorem layoutChecked?_eq
    {digits : List Char} {exponent : ℤ}
    (nonempty : digits ≠ [])
    (length : digits.length ≤ 2147483647)
    (least : -2147483648 < exponent)
    (greatest : exponent < 2147483647)
    (style : NumberStyle) :
    style.layoutChecked? digits exponent = some (style.layout digits (exponent + 1)) := by
  have count := List.length_pos_iff.mpr nonempty
  have fits : word? (exponent + 1) = some (exponent + 1) := word?_eq (by omega) (by omega)
  rw [layoutChecked?, word?_eq (by omega) (by omega), word?_eq (by omega) (by omega)]
  simp only [Option.bind_eq_bind, Option.bind_some, fits]
  unfold layout
  by_cases whole : (digits.length : ℤ) ≤ exponent + 1 ∧ exponent + 1 ≤ style.greatestPoint
  · obtain ⟨zeroCount, missing⟩ := Int.eq_ofNat_of_zero_le (Int.sub_nonneg.mpr whole.1)
    rw [if_pos whole, if_pos whole, word?_eq (by omega) (by omega), missing]
    rfl
  rw [if_neg whole, if_neg whole]
  by_cases inside : 0 < exponent + 1 ∧ exponent + 1 ≤ style.greatestPoint
  · obtain ⟨position, place⟩ := Int.eq_ofNat_of_zero_le inside.1.le
    have counted : (position : ℤ).toNat? = some position := rfl
    rw [if_pos inside, if_pos inside, place, counted, Option.bind_some, splitAt?,
      if_pos (by omega)]
    rfl
  rw [if_neg inside, if_neg inside]
  by_cases small : style.leastPoint < exponent + 1 ∧ exponent + 1 ≤ 0
  · have absolute : (exponent + 1).natAbs = (-(exponent + 1)).toNat := by
      omega
    rw [if_pos small, if_pos small, absolute]
  · rw [if_neg small, if_neg small, add_sub_cancel_right, word?_eq (by omega) (by omega)]
    simp only [Option.bind_some]
    rw [word?_eq (by omega) (by omega), splitAt?, Option.bind_some, if_pos (by omega),
      Int.natAbs_natCast]
    cases digits with
    | nil =>
        exact absurd rfl nonempty
    | cons digit more =>
        cases more <;> rfl

/-!
## The text of a number
-/

/-- The digits `d₁d₂…dₖ` of the scientific form `d₁.d₂…dₖ * 10 ^ E` of a magnitude. -/
def scientificDigits (x : Float) : List Char :=
  decimalDigits (Decimal.shortest .upper (Binary64.code x)).digits

/-- The exponent `E` of the scientific form `d₁.d₂…dₖ * 10 ^ E` of a magnitude. -/
def scientificExponent (x : Float) : ℤ :=
  pointOf (Decimal.shortest .upper (Binary64.code x)) - 1

/--
A text displays a number: behind a minus for a negative number it is a numeral with
exactly the value of the scientific form, with a power of ten outside of the range
from `10 ^ -6` to `10 ^ 21`, and the checked operations lay it out without a failure.

The scientific form is read as the number, and so is no decimal with fewer digits.
-/
structure Displays (text : List Char) (x : Float) : Prop where
  digits : Significant (scientificDigits x)
  readBack : ∀ decimal : Decimal,
    decimal.value = scientificValue (scientificDigits x) (scientificExponent x) →
      decimal.toFloat (Binary64.isNegative x) = x
  fewest : ∀ decimal : Decimal,
    decimal.toFloat (Binary64.isNegative x) = x →
      (scientificDigits x).length ≤ (decimalDigits decimal.digits).length
  sign : text.head? = some '-' ↔ x < 0
  body :
    ∃ numeral : Numeral,
      text = (if x < 0 then ['-'] else []) ++ numeral.text ∧
        numeral.value = scientificValue (scientificDigits x) (scientificExponent x) ∧
        (numeral.power.isSome ↔ 21 ≤ scientificExponent x ∨ scientificExponent x < -6) ∧
        screen.layoutChecked? (scientificDigits x) (scientificExponent x) = some numeral.text

/-- The scientific form of a number is its shortest decimal. -/
theorem scientificValue_eq_shortest (x : Float) :
    scientificValue (scientificDigits x) (scientificExponent x) =
      (Decimal.shortest .upper (Binary64.code x)).value := by
  rw [scientificDigits, scientificValue_eq (decimalDigits_ne_nil _), ofDigitChars_decimalDigits,
    scientificExponent, pointOf, Int.sub_add_cancel, Int.add_sub_cancel]

/-- A number that is not zero has a code other than zero. -/
theorem code_ne_zero
    {x : Float}
    (notZero : (x == 0) = false) :
    Binary64.code x ≠ 0 := by
  intro zero
  rcases Binary64.eq_zero_of_code zero with rfl | rfl
  · exact absurd notZero (by decide +kernel)
  · exact absurd notZero (by decide +kernel)

/-- A number other than zero is less than zero exactly if its sign is a minus. -/
theorem lt_zero_iff
    {x : Float}
    (number : x.isNaN = false)
    (notZero : (x == 0) = false) :
    x < 0 ↔ Binary64.isNegative x = true := by
  have code := code_ne_zero notZero
  have zero : Binary64.rank 0 = 0 := by
    decide +kernel
  rw [Binary64.lt_iff_rank_lt number (by decide +kernel), zero, Binary64.rank]
  split
  case isTrue negative =>
    exact iff_of_true (by omega) negative
  case isFalse positive =>
    exact iff_of_false (by omega) positive

/-- Every finite number other than zero is displayed with the digits of its scientific form. -/
theorem displays_write
    {x : Float}
    (finite : x.isFinite = true)
    (notZero : (x == 0) = false) :
    Displays (screen.write x).toList x := by
  have code := code_ne_zero notZero
  have positive := Nat.pos_of_ne_zero code
  have bound := Binary64.isFinite_iff.mp finite
  have number : x.isNaN = false := by
    rw [← Bool.not_eq_true, Binary64.isNaN_iff]
    omega
  have negative := lt_zero_iff number notZero
  have rounds := Decimal.shortest_roundsTo positive .upper
  have places := pointOf_bounds rounds positive bound
  have finest := Decimal.le_exponent_shortest .upper (Binary64.code x)
  have significant : Significant (scientificDigits x) :=
    significant_decimalDigits (rounds.digits_pos positive)
      (Decimal.shortest_digits_mod_ten positive .upper)
  have length : (scientificDigits x).length ≤ 725 := by
    unfold scientificDigits
    unfold pointOf at places
    omega
  obtain ⟨numeral, layout, value, power⟩ := exists_numeral significant (scientificExponent x)
  have exponent : -401 ≤ scientificExponent x ∧ scientificExponent x ≤ 399 := by
    unfold scientificExponent
    omega
  have checked : screen.layoutChecked? (scientificDigits x) (scientificExponent x) = _ :=
    layoutChecked?_eq significant.nonempty (by omega) (by omega) (by omega) screen
  have shape : (screen.write x).toList = (if x < 0 then ['-'] else []) ++ numeral.text := by
    rw [toList_write code bound, writeMagnitude_screen, ← layout, scientificExponent,
      sub_add_cancel]
    simp only [negative]
    rfl
  refine ⟨significant, fun decimal same => ?_, fun decimal read => ?_, ?_, numeral, shape, value,
    power, ?_⟩
  · exact toFloat_of_value_eq code bound (same.trans (scientificValue_eq_shortest x))
  · exact Decimal.length_shortest_le (Decimal.roundsTo_of_toFloat bound read) positive .upper
  · obtain ⟨digit, rest, start, isDigit⟩ := numeral.exists_text
    have noMinus : digit ≠ '-' := ne_of_class isDigit (by decide)
    rw [shape, start]
    split
    case isTrue less =>
      exact iff_of_true rfl less
    case isFalse notLess =>
      refine iff_of_false ?_ notLess
      rw [List.nil_append, List.head?_cons, Option.some_inj]
      exact noMinus
  · rw [checked, layout]

/-- A small negative number is displayed with a power of ten. -/
theorem displays_write_small :
    (-1.5e-7 : Float).isFinite = true ∧ ((-1.5e-7 : Float) == 0) = false ∧
      Displays ['-', '1', '.', '5', 'e', '-', '7'] (-1.5e-7) := by
  have finite : (-1.5e-7 : Float).isFinite = true := by
    decide +kernel
  have notZero : ((-1.5e-7 : Float) == 0) = false := by
    decide +kernel
  have text : (screen.write (-1.5e-7)).toList = ['-', '1', '.', '5', 'e', '-', '7'] := by
    decide +kernel
  have displays := displays_write finite notZero
  rw [text] at displays
  exact ⟨finite, notZero, displays⟩

end Bhasha.NumberStyle
