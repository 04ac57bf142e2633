import Mathlib
import Bhasha.Number.Display
import Bhasha.Proofs.Number.Code
import Bhasha.Proofs.Number.Numeral
import Bhasha.Proofs.Number.Shortest

namespace Bhasha

/-!
# Written numbers

A finite number is written as the digits of its shortest decimal, laid out around
a point or in front of a power of ten.  Whatever the layout, the text writes a
decimal of the same value, which rounds to the number.  Between `1e-6` and `1e21`
the layout is positional, so that the text is also a number literal.
-/

namespace Reading

/-- A text of digits, or of digits on both sides of a point. -/
inductive IsPlain : List Char → Prop where
  | whole {digits : List Char} :
      digits ≠ [] →
      digits.all isDigit →
      IsPlain digits
  | decimal {digits decimals : List Char} :
      digits ≠ [] →
      digits.all isDigit →
      decimals.all isDigit →
      IsPlain (digits ++ '.' :: decimals)

/-- Digits around a point are plain when there is one in front. -/
theorem IsMantissa.isPlain
    {mantissa whole fraction : List Char}
    (isMantissa : IsMantissa mantissa whole fraction)
    (front : whole ≠ []) :
    IsPlain mantissa := by
  cases isMantissa with
  | whole some digits =>
      exact .whole some digits
  | pointed some digits decimals =>
      exact .decimal front digits decimals

end Reading

namespace NumberStyle

open Reading

theorem all_decimalDigits (n : Nat) :
    (decimalDigits n).all isDigit = true := by
  rw [List.all_eq_true]
  intro c member
  have isDigit := Nat.isDigit_of_mem_toDigits (by decide) (by decide) member
  simpa [Reading.isDigit, Char.isDigit, Char.le_def] using isDigit

theorem decimalDigits_ne_nil (n : Nat) :
    decimalDigits n ≠ [] :=
  Nat.toDigits_ne_nil

theorem all_zeros (count : Nat) :
    (zeros count).all isDigit = true := by
  simp [zeros, isDigit]

/-- Digits around a point, at least one in front of it, that write a rational. -/
def Shows (text : List Char) (target : ℚ) : Prop :=
  ∃ whole fraction, IsMantissa text whole fraction ∧ whole ≠ [] ∧
    (written whole fraction 0).value = target

/-- Digits with zeros after them are scaled by the zeros. -/
theorem value_padded (text : List Char) (count : Nat) :
    (written (text ++ zeros count) [] 0).value =
      (⟨Nat.ofDigitChars 10 text 0, count⟩ : Decimal).value := by
  simp only [written, Decimal.value, zeros, List.append_nil, List.length_nil, Nat.cast_zero,
    Int.sub_zero, Nat.ofDigitChars_append, Nat.ofDigitChars_replicate_zero, Nat.cast_mul,
    Nat.cast_pow, zpow_zero, mul_one, zpow_natCast]
  exact mul_comm _ _

/-- Digits after a point and zeros are scaled by the zeros and the digits. -/
theorem value_leading (text : List Char) (count : Nat) :
    (written ['0'] (zeros count ++ text) 0).value =
      (⟨Nat.ofDigitChars 10 text 0, -((count + text.length : Nat) : ℤ)⟩ : Decimal).value := by
  have digits :
      Nat.ofDigitChars 10 (['0'] ++ (zeros count ++ text)) 0 = Nat.ofDigitChars 10 text 0 := by
    simp only [zeros, Nat.ofDigitChars_append, Nat.ofDigitChars_replicate_zero]
    rfl
  have length : (zeros count ++ text).length = count + text.length := by
    rw [List.length_append, zeros, List.length_replicate]
  rw [written, digits, length, Int.zero_sub]

/-- Digits around a point are scaled by those after it, and by the power of ten behind them. -/
theorem value_cut (text : List Char) (front : Nat) (power : ℤ) :
    (written (text.take front) (text.drop front) power).value =
      (⟨Nat.ofDigitChars 10 text 0, power - (text.length - front : Nat)⟩ : Decimal).value := by
  rw [written, List.take_append_drop, List.length_drop]

/-- Digits with zeros after them show what the zeros scale them to. -/
theorem shows_padded
    {text : List Char}
    (some : text ≠ [])
    (allDigits : text.all isDigit = true)
    (count : Nat) :
    Shows (text ++ zeros count) (⟨Nat.ofDigitChars 10 text 0, count⟩ : Decimal).value := by
  have padded : (text ++ zeros count).all isDigit = true := by
    rw [List.all_append, allDigits, all_zeros, Bool.and_self]
  have front := List.append_ne_nil_of_left_ne_nil some (zeros count)
  exact ⟨_, [], .whole front padded, front, value_padded text count⟩

/-- Digits are cut into digits. -/
theorem all_cut
    {text : List Char}
    (allDigits : text.all isDigit = true)
    (front : Nat) :
    (text.take front).all isDigit = true ∧ (text.drop front).all isDigit = true := by
  rw [← Bool.and_eq_true, ← List.all_append, List.take_append_drop]
  exact allDigits

/-- Digits with a point among them are scaled by the digits after the point. -/
theorem shows_cut
    {text : List Char} {front : Nat}
    (positive : 0 < front)
    (some : text ≠ [])
    (allDigits : text.all isDigit = true) :
    Shows (text.take front ++ '.' :: text.drop front)
      (⟨Nat.ofDigitChars 10 text 0, -((text.length - front : Nat) : ℤ)⟩ : Decimal).value := by
  obtain ⟨before, after⟩ := all_cut allDigits front
  have nonempty : text.take front ≠ [] := by
    intro empty
    rcases List.take_eq_nil_iff.mp empty with start | none
    · omega
    · exact some none
  refine ⟨_, _, .pointed (.inl nonempty) before after, nonempty, ?_⟩
  rw [value_cut, Int.zero_sub]

/-- Digits after a point and zeros show what both scale them to. -/
theorem shows_leading
    {text : List Char}
    (allDigits : text.all isDigit = true)
    (count : Nat) :
    Shows ('0' :: '.' :: zeros count ++ text)
      (⟨Nat.ofDigitChars 10 text 0, -((count + text.length : Nat) : ℤ)⟩ : Decimal).value := by
  have zero : ['0'].all isDigit = true := rfl
  have after : (zeros count ++ text).all isDigit = true := by
    rw [List.all_append, allDigits, all_zeros, Bool.and_self]
  exact ⟨['0'], zeros count ++ text, .pointed (.inl (by decide)) zero after, by decide,
    value_leading text count⟩

/-- Digits laid out by position show the decimal whose point is there. -/
theorem shows_layout
    {text : List Char} {point : ℤ}
    (some : text ≠ [])
    (allDigits : text.all isDigit = true)
    (least : -6 < point)
    (greatest : point ≤ 21) :
    Shows (screen.layout text point)
      (⟨Nat.ofDigitChars 10 text 0, point - text.length⟩ : Decimal).value := by
  have count := List.length_pos_iff.mpr some
  have screenLeast : screen.leastPoint = -6 := rfl
  have screenGreatest : screen.greatestPoint = 21 := rfl
  have ending : screen.wholeEnding.toList = [] := rfl
  dsimp only [layout]
  rw [screenLeast, screenGreatest, ending, List.append_nil]
  by_cases whole : (text.length : ℤ) ≤ point
  · have exponent : point - text.length = ((point - text.length).toNat : ℤ) := by
      omega
    rw [if_pos ⟨whole, greatest⟩, exponent]
    exact shows_padded some allDigits _
  rw [if_neg (by omega)]
  by_cases inside : 0 < point
  · have exponent : point - text.length = -((text.length - point.toNat : Nat) : ℤ) := by
      omega
    rw [if_pos ⟨inside, greatest⟩, exponent]
    exact shows_cut (by omega) some allDigits
  · have exponent : point - text.length = -(((-point).toNat + text.length : Nat) : ℤ) := by
      omega
    rw [if_neg (by omega), if_pos (by omega), exponent]
    exact shows_leading allDigits _

/-- A power of ten is written with its sign. -/
theorem isPower_written (exponent : ℤ) :
    IsPower ('e' :: (if 0 ≤ exponent then '+' else '-') :: decimalDigits exponent.natAbs)
      exponent := by
  have scaled {negative : Bool} {sign : List Char} (signed : IsSign negative sign) :=
    IsPower.written (.inl rfl) signed (decimalDigits_ne_nil exponent.natAbs)
      (all_decimalDigits exponent.natAbs)
  simp only [decimalDigits, Nat.ofDigitChars_ten_toDigits] at scaled
  split
  case isTrue positive =>
    have power := scaled .plus
    rwa [if_neg Bool.false_ne_true, one_mul, Int.natAbs_of_nonneg positive] at power
  case isFalse negative =>
    have power := scaled .minus
    rwa [if_pos rfl, neg_one_mul, Int.ofNat_natAbs_of_nonpos (by omega), neg_neg] at power

/-- Elsewhere a power of ten stands after the digits, of which one is in front of the point. -/
theorem layout_scientific
    {text : List Char} {point : ℤ}
    (some : text ≠ [])
    (allDigits : text.all isDigit = true)
    (outside : ¬ (-6 < point ∧ point ≤ 21)) :
    ∃ digits,
      Shows digits (⟨Nat.ofDigitChars 10 text 0, 1 - text.length⟩ : Decimal).value ∧
        screen.layout text point =
          digits ++ 'e' :: (if 0 ≤ point - 1 then '+' else '-') ::
            decimalDigits (point - 1).natAbs := by
  have screenLeast : screen.leastPoint = -6 := rfl
  have screenGreatest : screen.greatestPoint = 21 := rfl
  have count : 1 ≤ text.length := List.length_pos_iff.mpr some
  dsimp only [layout]
  rw [screenLeast, screenGreatest, if_neg (by omega), if_neg (by omega), if_neg (by omega)]
  rcases text with _ | ⟨digit, _ | ⟨second, more⟩⟩
  · exact absurd rfl some
  · exact ⟨[digit], shows_padded some allDigits 0, rfl⟩
  · have cut := shows_cut Nat.one_pos some allDigits
    have exponent :
        (1 : ℤ) - (digit :: second :: more).length =
          -(((digit :: second :: more).length - 1 : Nat) : ℤ) := by
      omega
    rw [exponent]
    exact ⟨_, cut, rfl⟩

/-- Whatever the layout, it writes the decimal whose point is there. -/
theorem writesDecimal_layout
    {negative : Bool} {sign text : List Char}
    (signed : IsSign negative sign)
    (some : text ≠ [])
    (allDigits : text.all isDigit = true)
    (point : ℤ) :
    ∃ whole fraction power,
      WritesDecimal (sign ++ screen.layout text point) negative whole fraction power ∧
        (written whole fraction power).value =
          (⟨Nat.ofDigitChars 10 text 0, point - text.length⟩ : Decimal).value ∧
        (power = 0 ∨ power = point - 1) := by
  by_cases inside : -6 < point ∧ point ≤ 21
  · obtain ⟨whole, fraction, digits, -, shown⟩ := shows_layout some allDigits inside.1 inside.2
    have writes := WritesDecimal.intro signed digits .none
    rw [List.append_nil] at writes
    exact ⟨whole, fraction, 0, writes, shown, .inl rfl⟩
  · obtain ⟨mantissa, ⟨whole, fraction, digits, -, shown⟩, layout⟩ :=
      layout_scientific some allDigits inside
    have writes := WritesDecimal.intro signed digits (isPower_written (point - 1))
    rw [← layout] at writes
    refine ⟨whole, fraction, point - 1, writes, ?_, .inr rfl⟩
    simp only [written, Decimal.value] at shown ⊢
    have ten : (10 : ℚ) ≠ 0 := by
      decide
    calc (Nat.ofDigitChars 10 (whole ++ fraction) 0 : ℚ) * 10 ^ (point - 1 - fraction.length)
        = Nat.ofDigitChars 10 (whole ++ fraction) 0 * 10 ^ ((0 : ℤ) - fraction.length) *
            10 ^ (point - 1) := by
          rw [mul_assoc, ← zpow_add₀ ten, zero_sub, neg_add_eq_sub]
      _ = Nat.ofDigitChars 10 text 0 * 10 ^ ((1 : ℤ) - text.length) * 10 ^ (point - 1) := by
          rw [shown]
      _ = Nat.ofDigitChars 10 text 0 * 10 ^ (point - text.length) := by
          rw [mul_assoc, ← zpow_add₀ ten, sub_add_sub_cancel']

/-- A positive number has at most as many digits as its powers of ten allow, and no fewer. -/
theorem decimalDigits_bounds
    {n : Nat}
    (positive : 0 < n) :
    10 ^ ((decimalDigits n).length - 1) ≤ n ∧ n < 10 ^ (decimalDigits n).length := by
  have count : 0 < (decimalDigits n).length := Nat.length_toDigits_pos
  constructor
  · by_contra fewer
    rw [Nat.not_le] at fewer
    rcases Nat.eq_zero_or_pos ((decimalDigits n).length - 1) with single | more
    · rw [single] at fewer
      omega
    · have shorter : (decimalDigits n).length ≤ (decimalDigits n).length - 1 :=
        (Nat.length_toDigits_le_iff (by decide) more).mpr fewer
      omega
  · exact (Nat.length_toDigits_le_iff (by decide) count).mp (Nat.le_refl _)

/-- The place of the point before which all the digits of a decimal stand. -/
def pointOf (decimal : Decimal) : ℤ := decimal.exponent + (decimalDigits decimal.digits).length

/-- A decimal is at least a power of ten exactly if its digits start before that place. -/
theorem zpow_le_value_iff
    {decimal : Decimal}
    (positive : 0 < decimal.digits)
    (power : ℤ) :
    (10 : ℚ) ^ power ≤ decimal.value ↔ power < pointOf decimal := by
  obtain ⟨atLeast, below⟩ := decimalDigits_bounds positive
  have count : 0 < (decimalDigits decimal.digits).length := Nat.length_toDigits_pos
  unfold pointOf
  generalize (decimalDigits decimal.digits).length = length at atLeast below count ⊢
  have ten : (10 : ℚ) ≠ 0 := by
    decide
  have scale : (0 : ℚ) < 10 ^ decimal.exponent := zpow_pos (by decide) _
  constructor
  · intro le
    by_contra beyond
    have bound : (decimal.digits : ℚ) < 10 ^ (length : ℤ) := by
      rw [zpow_natCast]
      exact_mod_cast below
    refine absurd le (not_le.mpr ?_)
    calc decimal.value
        < 10 ^ (length : ℤ) * 10 ^ decimal.exponent := mul_lt_mul_of_pos_right bound scale
      _ = 10 ^ (length + decimal.exponent) := (zpow_add₀ ten _ _).symm
      _ ≤ 10 ^ power := zpow_le_zpow_right₀ (by decide) (by omega)
  · intro less
    have bound : (10 : ℚ) ^ ((length - 1 : Nat) : ℤ) ≤ decimal.digits := by
      rw [zpow_natCast]
      exact_mod_cast atLeast
    calc (10 : ℚ) ^ power
        ≤ 10 ^ (((length - 1 : Nat) : ℤ) + decimal.exponent) :=
          zpow_le_zpow_right₀ (by decide) (by omega)
      _ = 10 ^ ((length - 1 : Nat) : ℤ) * 10 ^ decimal.exponent := zpow_add₀ ten _ _
      _ ≤ decimal.value := mul_le_mul_of_nonneg_right bound scale.le

/-- The digits of a number start at most 400 places before or after the point. -/
theorem pointOf_bounds
    {decimal : Decimal} {code : Nat}
    (rounds : decimal.RoundsTo code)
    (some : 0 < code)
    (finite : code < Binary64.infinity) :
    -400 ≤ pointOf decimal ∧ pointOf decimal ≤ 400 := by
  have positive := rounds.digits_pos some
  have read := Decimal.nearestCode_of_roundsTo finite rounds
  have notLarge : ¬ (10 : ℚ) ^ (400 : ℤ) ≤ decimal.value := by
    intro large
    rw [Decimal.nearestCode_of_le_value large] at read
    omega
  have notSmall : ¬ decimal.value ≤ (10 : ℚ) ^ (-400 : ℤ) := by
    intro small
    rw [Decimal.nearestCode_of_value_le small] at read
    omega
  have atLeast : (10 : ℚ) ^ (-400 : ℤ) ≤ decimal.value := (not_le.mp notSmall).le
  rw [zpow_le_value_iff positive] at notLarge atLeast
  omega

/-- A decimal of the value of the shortest one is read as the number. -/
theorem toFloat_of_value_eq
    {x : Float} {decimal : Decimal}
    (some : Binary64.code x ≠ 0)
    (finite : Binary64.code x < Binary64.infinity)
    (same : decimal.value = (Decimal.shortest .upper (Binary64.code x)).value) :
    decimal.toFloat (Binary64.isNegative x) = x := by
  have rounds := Decimal.shortest_roundsTo (Nat.pos_of_ne_zero some) .upper
  rw [Decimal.toFloat, Decimal.nearestCode_congr same,
    Decimal.nearestCode_of_roundsTo finite rounds, Binary64.ofCode_code]

/-- The shortest decimals of codes reach a power of ten where the codes reach its own. -/
theorem nearestCode_le_iff
    {power : ℤ} {code : Nat}
    (exactPower : Decimal.shortest .upper (Decimal.nearestCode ⟨1, power⟩) = ⟨1, power⟩)
    (finite : Decimal.nearestCode ⟨1, power⟩ < Binary64.infinity)
    (some : 0 < code) :
    Decimal.nearestCode ⟨1, power⟩ ≤ code ↔
      (10 : ℚ) ^ power ≤ (Decimal.shortest .upper code).value := by
  have rounds := Decimal.shortest_roundsTo some .upper
  obtain ⟨limit, powerRounds, nearest⟩ := (⟨1, power⟩ : Decimal).exists_roundsTo
  have powerValue : (⟨1, power⟩ : Decimal).value = (10 : ℚ) ^ power := by
    rw [Decimal.value, Nat.cast_one, one_mul]
  obtain rfl : limit = Decimal.nearestCode ⟨1, power⟩ := by
    omega
  rw [← powerValue]
  constructor
  · intro le
    rcases Nat.eq_or_lt_of_le le with rfl | less
    · rw [exactPower]
    · exact (powerRounds.value_lt rounds less).le
  · intro le
    exact powerRounds.code_le rounds le

/-- A finite number other than zero is written by its sign and the layout of its magnitude. -/
theorem toList_write
    {x : Float}
    (some : Binary64.code x ≠ 0)
    (finite : Binary64.code x < Binary64.infinity)
    (style : NumberStyle) :
    (style.write x).toList =
      (if Binary64.isNegative x then ['-'] else []) ++ style.writeMagnitude (Binary64.code x) := by
  have notMore := Nat.not_lt.mpr (Nat.le_of_lt finite)
  simp only [write, if_neg notMore, if_neg (Nat.ne_of_lt finite), if_neg some,
    String.toList_ofList]
  split <;> rfl

/-- The number is zero, or it lies in the range of positional notation. -/
def IsPositional (x : Float) : Prop :=
  x = 0.0 ∨ 1e-6 ≤ x ∧ x < 1e21

theorem positive_least : Binary64.Positive 1e-6 :=
  ⟨by decide +kernel, by decide +kernel, by decide +kernel⟩

theorem positive_greatest : Binary64.Positive 1e21 :=
  ⟨by decide +kernel, by decide +kernel, by decide +kernel⟩

/-- A positive number lies in the range exactly if its digits start near the point. -/
theorem isPositional_iff_pointOf
    {x : Float}
    (positive : Binary64.Positive x) :
    IsPositional x ↔
      -6 < pointOf (Decimal.shortest .upper (Binary64.code x)) ∧
        pointOf (Decimal.shortest .upper (Binary64.code x)) ≤ 21 := by
  have some : 0 < Binary64.code x := Nat.pos_of_ne_zero positive.some
  have digits := (Decimal.shortest_roundsTo some .upper).digits_pos some
  have leastCode : Binary64.code 1e-6 = Decimal.nearestCode ⟨1, -6⟩ := by
    decide +kernel
  have greatestCode : Binary64.code 1e21 = Decimal.nearestCode ⟨1, 21⟩ := by
    decide +kernel
  have low : 1e-6 ≤ x ↔ -6 < pointOf (Decimal.shortest .upper (Binary64.code x)) := by
    rw [positive_least.le_iff positive, leastCode,
      nearestCode_le_iff (by decide +kernel) (by decide +kernel) some, zpow_le_value_iff digits]
  have high : x < 1e21 ↔ pointOf (Decimal.shortest .upper (Binary64.code x)) ≤ 21 := by
    rw [positive.lt_iff positive_greatest, greatestCode, ← Nat.not_le,
      nearestCode_le_iff (by decide +kernel) (by decide +kernel) some, zpow_le_value_iff digits,
      not_lt]
  have notZero : x ≠ 0.0 := by
    rintro rfl
    exact positive.some (by decide +kernel)
  rw [IsPositional, or_iff_right notZero, low, high]

/-- A number in the range of positional notation is zero or positive. -/
theorem IsPositional.positive
    {x : Float}
    (positional : IsPositional x) :
    x = 0.0 ∨ Binary64.Positive x := by
  refine positional.imp_right fun ⟨atLeast, below⟩ => ?_
  exact positive_least.between positive_greatest atLeast below

/-- The magnitude of a number is laid out with the point where its shortest decimal has it. -/
theorem writeMagnitude_screen (code : Nat) :
    screen.writeMagnitude code =
      screen.layout (decimalDigits (Decimal.shortest .upper code).digits)
        (pointOf (Decimal.shortest .upper code)) :=
  rfl

/-- A number in the range of positional notation is written plainly and read back. -/
theorem write_screen
    {x : Float}
    (positional : IsPositional x) :
    IsPlain (screen.write x).toList ∧ readLiteral (screen.write x).toList = x := by
  rcases positional.positive with rfl | positive
  · have written : (screen.write 0.0).toList = ['0'] := by
      decide +kernel
    rw [written]
    exact ⟨.whole (by decide) (by decide), by decide +kernel⟩
  · obtain ⟨least, greatest⟩ := (isPositional_iff_pointOf positive).mp positional
    obtain ⟨whole, fraction, digits, front, shown⟩ := shows_layout (decimalDigits_ne_nil _)
      (all_decimalDigits (Decimal.shortest .upper (Binary64.code x)).digits) least greatest
    rw [pointOf, Int.add_sub_cancel, decimalDigits, Nat.ofDigitChars_ten_toDigits] at shown
    have read :
        readLiteral (screen.writeMagnitude (Binary64.code x)) = x := by
      rw [writeMagnitude_screen, readLiteral_mantissa digits, ← positive.sign]
      exact toFloat_of_value_eq positive.some positive.finite shown
    rw [toList_write positive.some positive.finite, positive.sign, if_neg Bool.false_ne_true,
      List.nil_append]
    exact ⟨digits.isPlain front, read⟩

/-- A finite number is written as a decimal of its sign and of the value of its shortest one. -/
theorem writesDecimal_write
    {x : Float}
    (some : Binary64.code x ≠ 0)
    (finite : Binary64.code x < Binary64.infinity) :
    ∃ whole fraction power,
      WritesDecimal (screen.write x).toList (Binary64.isNegative x) whole fraction power ∧
        (written whole fraction power).value =
          (Decimal.shortest .upper (Binary64.code x)).value ∧
        power.natAbs < 2 ^ 16 := by
  have rounds := Decimal.shortest_roundsTo (Nat.pos_of_ne_zero some) .upper
  have bounds := pointOf_bounds rounds (Nat.pos_of_ne_zero some) finite
  have signed : IsSign (Binary64.isNegative x) (if Binary64.isNegative x then ['-'] else []) := by
    cases Binary64.isNegative x with
    | false => exact .none
    | true => exact .minus
  obtain ⟨whole, fraction, power, writes, value, cases⟩ :=
    writesDecimal_layout signed (decimalDigits_ne_nil _)
      (all_decimalDigits (Decimal.shortest .upper (Binary64.code x)).digits)
      (pointOf (Decimal.shortest .upper (Binary64.code x)))
  rw [← writeMagnitude_screen, ← toList_write some finite] at writes
  rw [pointOf, Int.add_sub_cancel, decimalDigits, Nat.ofDigitChars_ten_toDigits] at value
  exact ⟨whole, fraction, power, writes, value, by omega⟩

/-- The forms in which numbers are written on the screen. -/
inductive IsScreenForm : List Char → Prop
  | plain
      {text : List Char}
      (plain : IsPlain text) :
      IsScreenForm text
  | infinity : IsScreenForm ['I', 'n', 'f', 'i', 'n', 'i', 't', 'y']
  | notANumber : IsScreenForm ['N', 'a', 'N']
  | negative
      {text : List Char} :
      IsScreenForm ('-' :: text)
  | scientific
      {digits power : List Char} {sign : Char}
      (plain : IsPlain digits)
      (signed : sign = '+' ∨ sign = '-') :
      IsScreenForm (digits ++ 'e' :: sign :: power)

/-- Digits are laid out by position or with a power of ten. -/
theorem isScreenForm_layout
    {text : List Char}
    (some : text ≠ [])
    (allDigits : text.all isDigit = true)
    (point : Int) :
    IsScreenForm (screen.layout text point) := by
  by_cases inside : -6 < point ∧ point ≤ 21
  · obtain ⟨_, _, digits, front, -⟩ := shows_layout some allDigits inside.1 inside.2
    exact .plain (digits.isPlain front)
  · obtain ⟨_, ⟨_, _, digits, front, -⟩, layout⟩ := layout_scientific some allDigits inside
    rw [layout]
    refine .scientific (digits.isPlain front) ?_
    split <;> simp

/-- Every number is written in one of the forms. -/
theorem isScreenForm_write (x : Float) :
    IsScreenForm (screen.write x).toList := by
  unfold write
  dsimp only
  split
  · exact .notANumber
  split
  · split
    · exact .negative
    · exact .infinity
  split
  · have zero : IsPlain ['0'] := .whole (by decide) (by decide)
    split <;> exact .plain zero
  · rw [String.toList_ofList]
    split
    · exact .negative
    · exact isScreenForm_layout (decimalDigits_ne_nil _) (all_decimalDigits _) _

/-- No number is written with a line feed. -/
theorem noFeed_write (x : Float) :
    '\n' ∉ (screen.write x).toList := by
  by_cases zero : Binary64.code x = 0
  · rcases Binary64.eq_zero_of_code zero with rfl | rfl <;> decide +kernel
  by_cases finite : Binary64.code x < Binary64.infinity
  · obtain ⟨whole, fraction, power, writes, -⟩ := writesDecimal_write zero finite
    exact writes.notMem (by decide) (by decide)
  · unfold write
    dsimp only
    split
    · decide
    split
    · split <;> decide
    · omega

end NumberStyle

end Bhasha
