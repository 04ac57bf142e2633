import Bhasha.Json.Lexeme
import Bhasha.Proofs.Number.Rounding
import Bhasha.Proofs.Number.Written

namespace Bhasha

/-!
# Texts and whole numbers read back from JSON

A text is read back from its escaped characters whatever characters it holds, and
a whole number below `2 ^ 64` from its digits: such a number is exact, and it is
far from the doubles that are too great.
-/

namespace Binary64

/-- A quotient is rounded to one of the two magnitudes around it. -/
theorem nearestCode_le_succ (numerator denominator : Nat) :
    nearestCode numerator denominator ≤ floorCode (numerator / denominator) + 1 := by
  simp only [nearestCode]
  generalize floorCode (numerator / denominator) = below
  have parity : below % 2 < 2 := Nat.mod_lt _ (by decide)
  repeat' split
  all_goals omega

/-- An amount below the units of a code is rounded to that code at most. -/
theorem nearestCode_le_of_lt
    {numerator denominator code : Nat}
    (positive : 0 < denominator)
    (below : numerator < units code * denominator) :
    nearestCode numerator denominator ≤ code := by
  have floored : floorCode (numerator / denominator) < code := by
    apply units_strictMono.lt_iff_lt.mp
    exact Nat.lt_of_le_of_lt (floorCode_spec _).1
      ((Nat.div_lt_iff_lt_mul positive).mpr below)
  exact (nearestCode_le_succ numerator denominator).trans floored

/-- The units of a power of two that is no fraction. -/
theorem units_twoPow (power : Nat) :
    units ((1023 + power) * 2 ^ 52) = 2 ^ power * 2 ^ 1074 := by
  have shifted : (1023 + power) * 2 ^ 52 = (1022 + power) * 2 ^ 52 + 2 ^ 52 := by
    omega
  have places : 52 + (1022 + power) = power + 1074 := by
    omega
  rw [shifted, units_shifted (by decide) (.inr (Nat.le_refl _)), ← Nat.pow_add, places,
    Nat.pow_add]

/-- A number below a power of two is rounded to that power at most. -/
theorem codeOfNat_le_of_lt
    {n power : Nat}
    (below : n < 2 ^ power) :
    codeOfNat n ≤ (1023 + power) * 2 ^ 52 := by
  refine nearestCode_le_of_lt Nat.one_pos ?_
  rw [units_twoPow, Nat.mul_one]
  exact Nat.mul_lt_mul_of_pos_right below (Nat.two_pow_pos 1074)

/-- The product with the number one is no greater than what the other number is less than. -/
theorem product_le_of_lt
    {first second code : Nat}
    (less : first < code)
    (one : units second = 2 ^ 1074) :
    product first second ≤ code := by
  have positive : 0 < units second := one ▸ Nat.two_pow_pos 1074
  simp only [product, ← one]
  exact nearestCode_le_of_lt positive
    (Nat.mul_lt_mul_of_pos_right (units_strictMono less) positive)

end Binary64

namespace Json

open Reading NumberStyle

namespace Numeral

/-- Scaled by the zeroth power of ten, a number below `2 ^ 64` is finite. -/
theorem multiply_zero_lt_infinity
    {n : Nat}
    (small : n < 2 ^ 64) :
    multiply (Binary64.codeOfNat n) 0 < Binary64.infinity := by
  have one : powerCode 0 = (1023 + 0) * 2 ^ 52 := by
    decide +kernel
  have units : Binary64.units (powerCode 0) = 2 ^ 1074 := by
    simpa only [one, Nat.pow_zero, Nat.one_mul] using Binary64.units_twoPow 0
  rw [multiply, if_pos (Nat.zero_le _)]
  have bound := Binary64.product_le_of_lt
    (Nat.lt_succ_of_le (Binary64.codeOfNat_le_of_lt small)) units
  exact Nat.lt_of_le_of_lt bound (by decide)

/-- More digits do not make a number less. -/
theorem le_ofDigitChars (text : List Char) (value : Nat) :
    value ≤ Nat.ofDigitChars 10 text value := by
  induction text generalizing value with
  | nil =>
      exact Nat.le_refl value
  | cons c rest inductionHypothesis =>
      rw [Nat.ofDigitChars_cons]
      have atLeast := inductionHypothesis (10 * value + (c.toNat - '0'.toNat))
      omega

/-- The digits of a number below `2 ^ 64` are all taken. -/
theorem appendFrom_eq
    {text : List Char} {value : Nat}
    (taken : Nat)
    (small : Nat.ofDigitChars 10 text value < 2 ^ 64) :
    appendFrom taken value text = (Nat.ofDigitChars 10 text value, taken + text.length) := by
  induction text generalizing taken value with
  | nil =>
      rfl
  | cons c rest inductionHypothesis =>
      rw [Nat.ofDigitChars_cons, ← appendDigit] at small ⊢
      have next : appendDigit value c < 2 ^ 64 :=
        Nat.lt_of_le_of_lt (le_ofDigitChars rest _) small
      rw [appendFrom, if_pos next, inductionHypothesis (taken + 1) small, List.length_cons,
        Nat.add_assoc, Nat.add_comm 1]

/-- The characters that go on with a number. -/
def goesOn (c : Char) : Bool := isDigit c || c = '.' || c = 'e' || c = 'E'

/-- No minus sign is cut from digits. -/
theorem splitMinus_digits
    {digits : List Char}
    (all : digits.all isDigit = true)
    (some : digits ≠ [])
    (rest : List Char) :
    splitMinus (digits ++ rest) = (false, digits ++ rest) := by
  unfold splitMinus
  split
  case h_1 more same =>
    have sign := notAhead_sign_of_digits all rest some '-' more same
    exact absurd sign (by decide)
  case h_2 =>
    rfl

/-- Digits that nothing goes on with are cut as they are, with a minus sign if there is one. -/
theorem split_digits
    {digits rest : List Char}
    (negative : Bool)
    (all : digits.all isDigit = true)
    (some : digits ≠ [])
    (ahead : NotAhead goesOn rest) :
    split ((if negative then ['-'] else []) ++ (digits ++ rest)) =
      (⟨negative, digits, none, none⟩, rest) := by
  have minus : splitMinus ((if negative then ['-'] else []) ++ (digits ++ rest)) =
      (negative, digits ++ rest) := by
    cases negative with
    | true =>
        rfl
    | false =>
        exact splitMinus_digits all some rest
  have stops (c : Char) (more : List Char) (same : rest = c :: more) :
      isDigit c = false ∧ c ≠ '.' ∧ c ≠ 'e' ∧ c ≠ 'E' := by
    simpa [goesOn, and_assoc] using ahead c more same
  obtain ⟨front, behind⟩ :=
    takeWhile_append_of_notAhead all fun c more same => (stops c more same).1
  have fraction : splitFraction rest = (none, rest) := by
    unfold splitFraction
    split
    case h_1 more =>
      exact absurd rfl (stops '.' more rfl).2.1
    case h_2 =>
      rfl
  have power : splitPower rest = (none, rest) := by
    cases rest with
    | nil =>
        rfl
    | cons c more =>
        have mark : ¬ (c = 'e' ∨ c = 'E') := not_or.mpr (stops c more rfl).2.2
        rw [splitPower, if_neg mark]
  simp only [split, minus, front, behind, fraction, power]

/-- The digits of a number have no zero in front. -/
theorem isWholePart_decimalDigits (n : Nat) :
    isWholePart (decimalDigits n) = true := by
  rcases Nat.eq_zero_or_pos n with rfl | positive
  · decide
  · obtain ⟨atLeast, -⟩ := decimalDigits_bounds positive
    unfold isWholePart
    split
    case h_1 none =>
      exact absurd none (decimalDigits_ne_nil n)
    case h_3 rest single zero =>
      have digits := all_decimalDigits n
      have number : Nat.ofDigitChars 10 (decimalDigits n) 0 = n :=
        Nat.ofDigitChars_ten_toDigits
      rw [zero, List.all_cons, Bool.and_eq_true] at digits
      rw [zero, Nat.ofDigitChars_cons] at number
      have fewer := ofDigitChars_lt digits.2
      rw [zero, List.length_cons, Nat.add_sub_cancel] at atLeast
      have same : Nat.ofDigitChars 10 rest 0 = n := number
      omega
    all_goals rfl

/-- The digits of a number below `2 ^ 64` scale nothing. -/
theorem code_digits
    {n : Nat}
    (negative : Bool)
    (small : n < 2 ^ 64) :
    (⟨negative, decimalDigits n, none, none⟩ : Numeral).code < Binary64.infinity := by
  have number : Nat.ofDigitChars 10 (decimalDigits n) 0 = n :=
    Nat.ofDigitChars_ten_toDigits
  have taken : appendFrom 0 0 (decimalDigits n) = (n, (decimalDigits n).length) := by
    rw [appendFrom_eq 0 (by rwa [number]), number, Nat.zero_add]
  have scaled : (⟨negative, decimalDigits n, none, none⟩ : Numeral).scaled = ⟨n, 0⟩ := by
    simp [Numeral.scaled, taken, appendFrom]
  rw [code, scaled]
  exact multiply_zero_lt_infinity small

end Numeral

/-- The characters of a whole number. -/
def integerText (value : Int) : List Char :=
  (if value < 0 then ['-'] else []) ++ decimalDigits value.natAbs

theorem toList_toString (value : Int) :
    (toString value).toList = integerText value := by
  cases value with
  | ofNat n =>
      have written : toString (Int.ofNat n) = n.repr := rfl
      have unsigned : ¬ Int.ofNat n < 0 := Int.not_lt.mpr (Int.natCast_nonneg n)
      rw [written, integerText, if_neg unsigned, Nat.repr_eq_ofList_toDigits, String.toList_ofList]
      rfl
  | negSucc n =>
      have written : toString (Int.negSucc n) = "-" ++ (n + 1).repr := rfl
      rw [written, integerText, if_pos (Int.negSucc_lt_zero n), String.toList_append,
        Nat.repr_eq_ofList_toDigits]
      exact congrArg _ String.toList_ofList

namespace Lexeme

/-- A whole number is read back from its digits. -/
theorem number?_integerText
    {value : Int} {rest : List Char}
    (small : value.natAbs < 2 ^ 64)
    (ahead : NotAhead Numeral.goesOn rest) :
    number? (integerText value ++ rest) = some (.integer value, rest) := by
  have split : Numeral.split (integerText value ++ rest) =
      (⟨decide (value < 0), decimalDigits value.natAbs, none, none⟩, rest) := by
    rw [integerText, List.append_assoc]
    simpa using Numeral.split_digits (decide (value < 0)) (all_decimalDigits value.natAbs)
      (decimalDigits_ne_nil value.natAbs) ahead
  have size : digits (decimalDigits value.natAbs) = value.natAbs := by
    rw [digits, digitsFrom_eq_ofDigitChars]
    exact Nat.ofDigitChars_ten_toDigits
  have wellFormed : (⟨decide (value < 0), decimalDigits value.natAbs, none, none⟩ :
      Numeral).isWellFormed = true := by
    simp [Numeral.isWellFormed, Numeral.isWholePart_decimalDigits]
  have number : (⟨decide (value < 0), decimalDigits value.natAbs, none, none⟩ :
      Numeral).value = .integer value := by
    rcases lt_or_ge value 0 with negative | positive
    · have some : value.natAbs ≠ 0 := by omega
      have magnitude : -(value.natAbs : Int) = value := by omega
      simp only [Numeral.value, size, negative, decide_true, some, decide_false,
        Option.isSome_none, Bool.or_self, Bool.and_false, Bool.false_eq_true, ↓reduceIte, magnitude]
    · have magnitude : (value.natAbs : Int) = value := by omega
      have unsigned : ¬ value < 0 := by omega
      simp only [Numeral.value, size, unsigned, decide_false, Option.isSome_none, Bool.or_self,
        Bool.false_and, Bool.false_eq_true, ↓reduceIte, magnitude]
  simp only [number?, split, wellFormed, Numeral.code_digits _ small, number, decide_true,
    Bool.and_true, ↓reduceIte]

/-- The forms of a character inside a text: a mark, the digits of its code, or itself. -/
inductive Escapes (c : Char) : List Char → Prop
  | marked
      {mark : Char}
      (noUnicode : mark ≠ 'u')
      (meant : unescape? mark = some c) :
      Escapes c ['\\', mark]
  | coded
      (control : c.toNat < 0x20) :
      Escapes c ['\\', 'u', '0', '0', hexDigit (c.toNat / 16), hexDigit (c.toNat % 16)]
  | printed
      (noQuote : c ≠ '"')
      (noBackslash : c ≠ '\\')
      (noControl : 0x20 ≤ c.toNat) :
      Escapes c [c]

theorem escapes_escape (c : Char) : Escapes c (escape c) := by
  unfold escape
  split_ifs with quote backslash newline carriage tab backspace feed control
  · subst quote
    exact .marked (by decide) rfl
  · subst backslash
    exact .marked (by decide) rfl
  · subst newline
    exact .marked (by decide) rfl
  · subst carriage
    exact .marked (by decide) rfl
  · subst tab
    exact .marked (by decide) rfl
  · subst backspace
    exact .marked (by decide) rfl
  · subst feed
    exact .marked (by decide) rfl
  · exact .coded control
  · exact .printed quote backslash (Nat.le_of_not_lt control)

/-- The four digits of an escaped control character are read as its code. -/
theorem hexadecimal?_hexDigit :
    ∀ unit < 0x20,
      hexadecimal? ['0', '0', hexDigit (unit / 16), hexDigit (unit % 16)] = some unit := by
  decide

/-- A character is read back from each of its forms. -/
theorem Escapes.textBody?
    {c : Char} {form : List Char}
    (escapes : Escapes c form)
    (read rest : List Char) :
    textBody? read (form ++ rest) = textBody? (c :: read) rest := by
  cases escapes with
  | marked noUnicode meant =>
      rw [List.cons_append, List.singleton_append, Lexeme.textBody?, meant]
      exact fun _ _ _ _ _ unicode => absurd unicode noUnicode
  | coded control =>
      have code := hexadecimal?_hexDigit c.toNat control
      have low : isLowSurrogate c.toNat = false := by
        simp [isLowSurrogate]
        omega
      have high : isHighSurrogate c.toNat = false := by
        simp [isHighSurrogate]
        omega
      simp [Lexeme.textBody?, code, low, high]
  | printed noQuote noBackslash noControl =>
      have visible : ¬ c.toNat < 0x20 := Nat.not_lt.mpr noControl
      simp [Lexeme.textBody?, noBackslash, visible]

/-- A text is read back up to its closing quote. -/
theorem textBody?_flatMap_escape (read text rest : List Char) :
    textBody? read (text.flatMap escape ++ '"' :: rest) =
      some (read.reverse ++ text, rest) := by
  induction text generalizing read with
  | nil =>
      simp [textBody?]
  | cons c text inductionHypothesis =>
      rw [List.flatMap_cons, List.append_assoc, (escapes_escape c).textBody?,
        inductionHypothesis,
        List.reverse_cons, List.append_assoc]
      rfl

end Lexeme

end Json

end Bhasha
