import Bhasha.Number.Reading
import Bhasha.Proofs.Number.Decimal
import Bhasha.Proofs.Token.Spelling

namespace Bhasha.Reading

/-!
# The grammar of written numbers

A decimal is written as a sign, digits around at most one point, and a power of
ten.  The grammar says nothing about how a text is read; reading a decimal is
shown to accept exactly the texts of the grammar, and to find the sign, the digits
and the power that are written.  Of an exponent beyond `2 ^ 16` only some digits
count, which matters only to texts with nearly as many digits before it.
-/

/-- A sign at the front of a number, and whether it is a minus. -/
inductive IsSign : Bool → List Char → Prop where
  | none : IsSign false []
  | plus : IsSign false ['+']
  | minus : IsSign true ['-']

/-- Digits around at most one point, those before it and those after it. -/
inductive IsMantissa : List Char → List Char → List Char → Prop where
  | whole
      {whole : List Char}
      (some : whole ≠ [])
      (digits : whole.all isDigit) :
      IsMantissa whole whole []
  | pointed
      {whole fraction : List Char}
      (some : whole ≠ [] ∨ fraction ≠ [])
      (digits : whole.all isDigit)
      (decimals : fraction.all isDigit) :
      IsMantissa (whole ++ '.' :: fraction) whole fraction

/-- A power of ten at the end of a number; nothing stands for the zeroth power. -/
inductive IsPower : List Char → ℤ → Prop where
  | none : IsPower [] 0
  | written
      {mark : Char} {negative : Bool} {sign exponent : List Char}
      (marked : mark = 'e' ∨ mark = 'E')
      (signed : IsSign negative sign)
      (some : exponent ≠ [])
      (digits : exponent.all isDigit) :
      IsPower (mark :: (sign ++ exponent))
        ((if negative then -1 else 1) * Nat.ofDigitChars 10 exponent 0)

/-- A text that is a sign, digits around at most one point, and a power of ten. -/
inductive WritesDecimal : List Char → Bool → List Char → List Char → ℤ → Prop where
  | intro
      {negative : Bool} {sign mantissa whole fraction tail : List Char} {power : ℤ}
      (signed : IsSign negative sign)
      (digits : IsMantissa mantissa whole fraction)
      (scaled : IsPower tail power) :
      WritesDecimal (sign ++ (mantissa ++ tail)) negative whole fraction power

/-- The decimal that digits around a point write with a power of ten. -/
def written (whole fraction : List Char) (power : ℤ) : Decimal :=
  ⟨Nat.ofDigitChars 10 (whole ++ fraction) 0, power - fraction.length⟩

/-- A character that is no digit and no mark of a number is not in the text of a decimal. -/
theorem WritesDecimal.notMem
    {text whole fraction : List Char} {negative : Bool} {power : ℤ} {c : Char}
    (writes : WritesDecimal text negative whole fraction power)
    (noDigit : isDigit c = false)
    (noMark : c ∉ ['.', 'e', 'E', '+', '-']) :
    c ∉ text := by
  have noneOf {digits : List Char} (all : digits.all isDigit = true) : c ∉ digits := by
    intro member
    rw [List.all_eq_true.mp all c member] at noDigit
    cases noDigit
  have noSign {negative : Bool} {sign : List Char} (signed : IsSign negative sign) : c ∉ sign := by
    cases signed <;> simp_all
  cases writes with
  | intro signed digits scaled =>
      simp only [List.mem_append, not_or]
      refine ⟨noSign signed, ?_, ?_⟩
      · cases digits with
        | whole some digits =>
            exact noneOf digits
        | pointed some digits decimals =>
            simp_all
      · cases scaled with
        | none =>
            exact List.not_mem_nil
        | written marked signed some digits =>
            have unsigned := noSign signed
            rcases marked with rfl | rfl <;> simp_all

/-- A sign is read off what follows it, unless that is a sign itself. -/
theorem splitSign_append
    {negative : Bool} {sign rest : List Char}
    (signed : IsSign negative sign)
    (unsigned : NotAhead (fun c => c = '-' || c = '+') rest) :
    splitSign (sign ++ rest) = (negative, rest) := by
  cases signed with
  | none =>
      rw [List.nil_append]
      unfold splitSign
      split
      case h_1 more => exact absurd (unsigned _ more rfl) (by decide)
      case h_2 more => exact absurd (unsigned _ more rfl) (by decide)
      case h_3 => rfl
  | plus | minus =>
      rfl

/-- What is split off as a sign is one. -/
theorem exists_isSign (text : List Char) :
    ∃ sign, IsSign (splitSign text).1 sign ∧ text = sign ++ (splitSign text).2 := by
  unfold splitSign
  split
  case h_1 rest => exact ⟨_, .minus, rfl⟩
  case h_2 rest => exact ⟨_, .plus, rfl⟩
  case h_3 => exact ⟨_, .none, rfl⟩

/-- Digits are no signs. -/
theorem notAhead_sign_of_digits
    {text : List Char}
    (digits : text.all isDigit = true)
    (rest : List Char)
    (some : text ≠ []) :
    NotAhead (fun c => c = '-' || c = '+') (text ++ rest) := by
  cases text with
  | nil =>
      exact absurd rfl some
  | cons c text =>
      rintro first more ⟨⟩
      rw [List.all_cons, Bool.and_eq_true] at digits
      have noMinus : c ≠ '-' := ne_of_class digits.1 (by decide)
      have noPlus : c ≠ '+' := ne_of_class digits.1 (by decide)
      simp [noMinus, noPlus]

/-- Digits around a point are no signs. -/
theorem IsMantissa.notAhead_sign
    {mantissa whole fraction : List Char}
    (isMantissa : IsMantissa mantissa whole fraction)
    (rest : List Char) :
    NotAhead (fun c => c = '-' || c = '+') (mantissa ++ rest) := by
  cases isMantissa with
  | whole some digits =>
      exact notAhead_sign_of_digits digits rest some
  | pointed some digits decimals =>
      rw [List.append_assoc]
      cases whole with
      | nil =>
          rintro first more ⟨⟩
          decide
      | cons c whole =>
          exact notAhead_sign_of_digits digits _ (List.cons_ne_nil c whole)

/-- Digits around a point are split at the point. -/
theorem splitPoint_append
    {mantissa whole fraction rest : List Char}
    (isMantissa : IsMantissa mantissa whole fraction)
    (ahead : NotAhead (fun c => isDigit c || c = '.') rest) :
    splitPoint (mantissa ++ rest) = (whole, fraction, rest) := by
  have noDigit : NotAhead isDigit rest := fun c more same =>
    (Bool.or_eq_false_iff.mp (ahead c more same)).1
  cases isMantissa with
  | whole some digits =>
      obtain ⟨front, behind⟩ := takeWhile_append_of_notAhead digits noDigit
      unfold splitPoint
      rw [front, behind]
      split
      case h_1 more => exact absurd (ahead _ more rfl) (by simp)
      case h_2 => rfl
  | pointed some digits decimals =>
      have point : NotAhead isDigit ('.' :: (fraction ++ rest)) := by
        rintro c more ⟨⟩
        decide
      obtain ⟨front, behind⟩ := takeWhile_append_of_notAhead digits point
      obtain ⟨frontDecimals, behindDecimals⟩ := takeWhile_append_of_notAhead decimals noDigit
      rw [List.append_assoc, List.cons_append]
      simp only [splitPoint, front, behind, frontDecimals, behindDecimals]

/-- What is split at a point are digits around it, unless there are none. -/
theorem exists_isMantissa
    {text whole fraction rest : List Char}
    (split : splitPoint text = (whole, fraction, rest))
    (some : ¬ (whole = [] ∧ fraction = [])) :
    ∃ mantissa, IsMantissa mantissa whole fraction ∧ text = mantissa ++ rest := by
  have front := List.takeWhile_append_dropWhile (p := isDigit) (l := text)
  unfold splitPoint at split
  split at split
  case h_1 more found =>
    cases split
    have behind := List.takeWhile_append_dropWhile (p := isDigit) (l := more)
    refine ⟨_, .pointed ?_ List.all_takeWhile List.all_takeWhile, ?_⟩
    · rw [← not_and_or]
      exact some
    · rw [List.append_assoc, List.cons_append, behind, ← found, front]
  case h_2 =>
    cases split
    refine ⟨_, .whole ?_ List.all_takeWhile, front.symm⟩
    intro none
    exact some ⟨none, rfl⟩

/-- The number that a text of digits writes, as the core library finds it. -/
theorem digitsFrom_eq_ofDigitChars (start : Nat) (text : List Char) :
    digitsFrom start text = Nat.ofDigitChars 10 text start :=
  digitsFrom_eq_foldl start text

/-- Digits on both sides of a point are read together. -/
theorem decimalOf_eq (whole fraction : List Char) :
    decimalOf whole fraction = written whole fraction 0 := by
  rw [decimalOf, written, digits, digitsFrom_eq_ofDigitChars, digitsFrom_eq_ofDigitChars,
    Nat.ofDigitChars_append, Int.zero_sub]

/-- Digits around a point are read as the number nearest to the decimal that they write. -/
theorem readLiteral_mantissa
    {mantissa whole fraction : List Char}
    (isMantissa : IsMantissa mantissa whole fraction) :
    readLiteral mantissa = (written whole fraction 0).toFloat false := by
  have nothing : NotAhead (fun c => isDigit c || c = '.') [] := by
    rintro c more ⟨⟩
  have split := splitPoint_append isMantissa nothing
  rw [List.append_nil] at split
  simp only [readLiteral, split, decimalOf_eq]

/-- One digit more is appended to a number. -/
theorem ofDigitChars_concat (text : List Char) (c : Char) :
    Nat.ofDigitChars 10 (text ++ [c]) 0 = appendDigit (Nat.ofDigitChars 10 text 0) c := by
  rw [Nat.ofDigitChars_append, Nat.ofDigitChars_cons, Nat.ofDigitChars_nil, appendDigit]

/-- A number has no more digits than are written. -/
theorem ofDigitChars_lt
    {text : List Char}
    (digits : text.all isDigit = true) :
    Nat.ofDigitChars 10 text 0 < 10 ^ text.length := by
  induction text using List.reverseRecOn with
  | nil =>
      decide
  | append_singleton text c inductionHypothesis =>
      rw [List.all_append, Bool.and_eq_true, List.all_cons, Bool.and_eq_true] at digits
      have bound := inductionHypothesis digits.1
      have digit := (isDigit_iff c).mp digits.2.1
      have zero : '0'.toNat = 48 := rfl
      rw [ofDigitChars_concat, appendDigit, zero, List.length_append, List.length_singleton,
        Nat.pow_succ]
      omega

/-- An exponent is read as it is written, or both are beyond the digits that count. -/
theorem exponentDigits_cases (text : List Char) :
    exponentDigits text = Nat.ofDigitChars 10 text 0 ∨
      2 ^ 16 ≤ exponentDigits text ∧ 2 ^ 16 ≤ Nat.ofDigitChars 10 text 0 := by
  induction text using List.reverseRecOn with
  | nil =>
      exact .inl rfl
  | append_singleton text c inductionHypothesis =>
      have step :
          exponentDigits (text ++ [c]) =
            if exponentDigits text < 2 ^ 16 then appendDigit (exponentDigits text) c
            else exponentDigits text := by
        rw [exponentDigits, List.foldl_append]
        rfl
      rw [step, ofDigitChars_concat]
      rcases inductionHypothesis with same | ⟨beyond, large⟩
      · split
        case isTrue counts =>
          rw [same]
          exact .inl rfl
        case isFalse beyond =>
          rw [appendDigit, ← same]
          omega
      · rw [if_neg (by omega), appendDigit]
        omega

/-- An exponent that stands for another one: it is the same, or both are beyond `2 ^ 16`. -/
def CountsAs (power counted : ℤ) : Prop :=
  counted = power ∨ 2 ^ 16 ≤ power ∧ 2 ^ 16 ≤ counted ∨ power ≤ -2 ^ 16 ∧ counted ≤ -2 ^ 16

/-- A power of ten is read as one that counts as the written one. -/
theorem readExponent?_of_isPower
    {tail : List Char} {power : ℤ}
    (scaled : IsPower tail power) :
    ∃ counted, readExponent? tail = some counted ∧ CountsAs power counted := by
  cases scaled with
  | none =>
      exact ⟨0, rfl, .inl rfl⟩
  | @written mark negative sign exponent marked signed some digits =>
      have unsigned := notAhead_sign_of_digits digits [] some
      rw [List.append_nil] at unsigned
      refine ⟨if negative then -(exponentDigits exponent : ℤ) else exponentDigits exponent, ?_, ?_⟩
      · simp only [readExponent?, if_pos marked, splitSign_append signed unsigned,
          if_pos (And.intro some digits)]
      · unfold CountsAs
        cases negative with
        | false =>
            simp only [Bool.false_eq_true, if_false]
            have cases := exponentDigits_cases exponent
            omega
        | true =>
            simp only [if_true]
            have cases := exponentDigits_cases exponent
            omega

/-- What is read as a power of ten is one. -/
theorem exists_isPower
    {tail : List Char} {counted : ℤ}
    (read : readExponent? tail = some counted) :
    ∃ power, IsPower tail power := by
  cases tail with
  | nil =>
      exact ⟨0, .none⟩
  | cons mark text =>
      obtain ⟨sign, signed, shape⟩ := exists_isSign text
      simp only [readExponent?] at read
      split at read
      case isTrue marked =>
        split at read
        case isTrue body =>
          have scaled := IsPower.written marked signed body.1 body.2
          rw [← shape] at scaled
          exact ⟨_, scaled⟩
        case isFalse =>
          cases read
      case isFalse =>
        cases read

theorem IsPower.notAhead
    {tail : List Char} {power : ℤ}
    (scaled : IsPower tail power) :
    NotAhead (fun c => isDigit c || c = '.') tail := by
  cases scaled with
  | none =>
      rintro c more ⟨⟩
  | written marked =>
      rintro c more ⟨⟩
      rcases marked with rfl | rfl <;> decide

theorem IsMantissa.some
    {mantissa whole fraction : List Char}
    (isMantissa : IsMantissa mantissa whole fraction) :
    ¬ (whole = [] ∧ fraction = []) := by
  rintro ⟨rfl, rfl⟩
  cases isMantissa with
  | whole some =>
      exact some rfl
  | pointed some =>
      exact some.elim (fun none => none rfl) (fun none => none rfl)

theorem IsMantissa.all_isDigit
    {mantissa whole fraction : List Char}
    (isMantissa : IsMantissa mantissa whole fraction) :
    (whole ++ fraction).all isDigit = true := by
  cases isMantissa with
  | whole some digits =>
      rw [List.append_nil]
      exact digits
  | pointed some digits decimals =>
      rw [List.all_append, digits, decimals, Bool.and_self]

/-- A written decimal is read with its sign and its digits, and a power that counts as its own. -/
theorem readDecimal?_of_writes
    {text whole fraction : List Char} {negative : Bool} {power : ℤ}
    (writes : WritesDecimal text negative whole fraction power) :
    ∃ counted, CountsAs power counted ∧
      readDecimal? text = some ((written whole fraction counted).toFloat negative) := by
  cases writes with
  | intro signed digits scaled =>
      obtain ⟨counted, read, counts⟩ := readExponent?_of_isPower scaled
      refine ⟨counted, counts, ?_⟩
      have sum : -(fraction.length : ℤ) + counted = counted - fraction.length := by
        omega
      simp only [readDecimal?, splitSign_append signed (digits.notAhead_sign _),
        splitPoint_append digits scaled.notAhead, if_neg digits.some, read, Option.map_some,
        decimalOf_eq, written, Int.zero_sub, sum]

/-- What is read as a decimal is written as one. -/
theorem exists_writes_of_readDecimal?
    {text : List Char} {x : Float}
    (read : readDecimal? text = some x) :
    ∃ negative whole fraction power, WritesDecimal text negative whole fraction power := by
  obtain ⟨sign, signed, shape⟩ := exists_isSign text
  rcases parts : splitPoint (splitSign text).2 with ⟨whole, fraction, rest⟩
  simp only [readDecimal?, parts] at read
  split at read
  case isTrue =>
    cases read
  case isFalse some =>
    obtain ⟨counted, found, -⟩ := Option.map_eq_some_iff.mp read
    obtain ⟨power, scaled⟩ := exists_isPower found
    obtain ⟨mantissa, digits, body⟩ := exists_isMantissa parts some
    have writes := WritesDecimal.intro signed digits scaled
    rw [← body, ← shape] at writes
    exact ⟨_, _, _, _, writes⟩

/-- Every digit of a written exponent counts, or the digits before it are few. -/
def Counted (text : List Char) : Prop :=
  ∀ negative whole fraction power, WritesDecimal text negative whole fraction power →
    power.natAbs < 2 ^ 16 ∨ (whole ++ fraction).length ≤ 65000

/-- A few digits with a large power of ten are zero or beyond all finite numbers. -/
theorem nearestCode_written_of_large
    {whole fraction : List Char} {power : ℤ}
    (few : (whole ++ fraction).length ≤ 65000)
    (large : 2 ^ 16 ≤ power) :
    (written whole fraction power).nearestCode =
      if Nat.ofDigitChars 10 (whole ++ fraction) 0 = 0 then 0 else Binary64.infinity := by
  rw [List.length_append] at few
  split
  case isTrue zero =>
    apply Decimal.nearestCode_of_value_le
    rw [Decimal.value, written, zero, Nat.cast_zero, zero_mul]
    exact zpow_nonneg (by decide) _
  case isFalse some =>
    have digits : (1 : ℚ) ≤ Nat.ofDigitChars 10 (whole ++ fraction) 0 :=
      Nat.one_le_cast.mpr (Nat.pos_of_ne_zero some)
    apply Decimal.nearestCode_of_le_value
    calc (10 : ℚ) ^ (400 : ℤ)
        ≤ 10 ^ (power - fraction.length) := zpow_le_zpow_right₀ (by decide) (by omega)
      _ ≤ (written whole fraction power).value :=
        le_mul_of_one_le_left (zpow_nonneg (by decide) _) digits

/-- A few digits with a small power of ten are below all numbers but zero. -/
theorem nearestCode_written_of_small
    {whole fraction : List Char} {power : ℤ}
    (digits : (whole ++ fraction).all isDigit = true)
    (few : (whole ++ fraction).length ≤ 65000)
    (small : power ≤ -2 ^ 16) :
    (written whole fraction power).nearestCode = 0 := by
  have bound : (Nat.ofDigitChars 10 (whole ++ fraction) 0 : ℚ) ≤
      10 ^ ((whole ++ fraction).length : ℤ) := by
    rw [zpow_natCast]
    exact_mod_cast (ofDigitChars_lt digits).le
  apply Decimal.nearestCode_of_value_le
  calc (written whole fraction power).value
      ≤ 10 ^ ((whole ++ fraction).length : ℤ) * 10 ^ (power - fraction.length) :=
        mul_le_mul_of_nonneg_right bound (zpow_nonneg (by decide) _)
    _ = 10 ^ ((whole ++ fraction).length + (power - fraction.length)) :=
        (zpow_add₀ (by decide) _ _).symm
    _ ≤ 10 ^ (-400 : ℤ) := zpow_le_zpow_right₀ (by decide) (by omega)

/-- A power that counts as the written one makes the same number. -/
theorem CountsAs.nearestCode_eq
    {whole fraction : List Char} {power counted : ℤ}
    (counts : CountsAs power counted)
    (digits : (whole ++ fraction).all isDigit = true)
    (enough : power.natAbs < 2 ^ 16 ∨ (whole ++ fraction).length ≤ 65000) :
    (written whole fraction counted).nearestCode = (written whole fraction power).nearestCode := by
  rcases counts with rfl | ⟨large, countedLarge⟩ | ⟨small, countedSmall⟩
  · rfl
  · have few : (whole ++ fraction).length ≤ 65000 := enough.resolve_left (by omega)
    rw [nearestCode_written_of_large few large, nearestCode_written_of_large few countedLarge]
  · have few : (whole ++ fraction).length ≤ 65000 := enough.resolve_left (by omega)
    rw [nearestCode_written_of_small digits few small,
      nearestCode_written_of_small digits few countedSmall]

/-- A written decimal is read as the number nearest to it. -/
theorem readDecimal?_eq
    {text whole fraction : List Char} {negative : Bool} {power : ℤ}
    (writes : WritesDecimal text negative whole fraction power)
    (enough : power.natAbs < 2 ^ 16 ∨ (whole ++ fraction).length ≤ 65000) :
    readDecimal? text = some ((written whole fraction power).toFloat negative) := by
  obtain ⟨counted, counts, read⟩ := readDecimal?_of_writes writes
  have digits : (whole ++ fraction).all isDigit = true := by
    cases writes with
    | intro signed digits scaled => exact digits.all_isDigit
  rw [read, Decimal.toFloat, Decimal.toFloat, counts.nearestCode_eq digits enough]

end Bhasha.Reading
