import Bhasha.Number.Binary64
import Mathlib.Order.Monotone.Basic

namespace Bhasha.Binary64

/-!
# Rounding to the nearest magnitude

The units of codes grow with the codes, one binade after the other.  A quotient
that lies between the middles on both sides of a code is rounded to that code,
and the middles themselves belong to the even codes.
-/

/-- The units of a code that is a significand shifted by a number of places. -/
theorem units_shifted
    {shift significand : Nat}
    (below : significand < 2 ^ 53)
    (normal : shift = 0 ∨ 2 ^ 52 ≤ significand) :
    units (shift * 2 ^ 52 + significand) = significand * 2 ^ shift := by
  unfold units
  by_cases small : shift * 2 ^ 52 + significand < 2 ^ 52
  · have noShift : shift = 0 := by
      omega
    subst noShift
    rw [if_pos small]
    omega
  · rw [if_neg small, Nat.shiftLeft_eq]
    have leading : 2 ^ 52 ≤ significand := by
      omega
    obtain ⟨fraction, rfl⟩ := Nat.exists_eq_add_of_le leading
    have quotient : (shift * 2 ^ 52 + (2 ^ 52 + fraction)) / 2 ^ 52 = shift + 1 := by
      omega
    have remainder : (shift * 2 ^ 52 + (2 ^ 52 + fraction)) % 2 ^ 52 = fraction := by
      omega
    rw [quotient, remainder, Nat.add_sub_cancel]

/-- The next code has the next significand, also where that starts another binade. -/
theorem units_shifted_succ
    {shift significand : Nat}
    (below : significand < 2 ^ 53)
    (normal : shift = 0 ∨ 2 ^ 52 ≤ significand) :
    units (shift * 2 ^ 52 + significand + 1) = (significand + 1) * 2 ^ shift := by
  by_cases last : significand + 1 = 2 ^ 53
  · have next : shift * 2 ^ 52 + significand + 1 = (shift + 1) * 2 ^ 52 + 2 ^ 52 := by
      omega
    rw [next, units_shifted (by decide) (.inr (Nat.le_refl _)), last, ← Nat.pow_add,
      ← Nat.pow_add, Nat.add_comm shift 1, ← Nat.add_assoc]
  · rw [Nat.add_assoc]
    exact units_shifted (by omega) (normal.imp_right Nat.le_succ_of_le)

/-- Every code is a significand shifted by a number of places. -/
theorem exists_shifted (code : Nat) :
    ∃ shift significand, code = shift * 2 ^ 52 + significand ∧
      significand < 2 ^ 53 ∧ (shift = 0 ∨ 2 ^ 52 ≤ significand) := by
  by_cases small : code < 2 ^ 52
  · exact ⟨0, code, by omega, by omega, .inl rfl⟩
  · exact ⟨code / 2 ^ 52 - 1, 2 ^ 52 + code % 2 ^ 52, by omega, by omega, .inr (by omega)⟩

/-- Codes are ordered as the magnitudes are. -/
theorem units_strictMono : StrictMono units := by
  apply strictMono_nat_of_lt_succ
  intro code
  obtain ⟨shift, significand, rfl, below, normal⟩ := exists_shifted code
  rw [units_shifted_succ below normal, units_shifted below normal]
  exact Nat.mul_lt_mul_of_pos_right (Nat.lt_succ_self _) (Nat.two_pow_pos _)

/-- A number of units lies between its code and the next. -/
theorem floorCode_spec (amount : Nat) :
    units (floorCode amount) ≤ amount ∧ amount < units (floorCode amount + 1) := by
  have size := Nat.lt_log2_self (n := amount)
  let shift := amount.log2 - 52
  have code : floorCode amount = shift * 2 ^ 52 + amount / 2 ^ shift := by
    rw [floorCode, Nat.shiftRight_eq_div_pow]
  have below : amount / 2 ^ shift < 2 ^ 53 := by
    rw [Nat.div_lt_iff_lt_mul (Nat.two_pow_pos _), ← Nat.pow_add]
    exact Nat.lt_of_lt_of_le size (Nat.pow_le_pow_right (by decide) (by omega))
  have normal : shift = 0 ∨ 2 ^ 52 ≤ amount / 2 ^ shift := by
    rcases Nat.eq_zero_or_pos shift with noShift | shifted
    · exact .inl noShift
    · refine .inr ?_
      rw [Nat.le_div_iff_mul_le (Nat.two_pow_pos _), ← Nat.pow_add]
      have log : amount.log2 = 52 + shift := by
        omega
      have some : amount ≠ 0 := by
        rintro rfl
        simp [shift] at shifted
      rw [← log]
      exact Nat.log2_self_le some
  rw [code, units_shifted_succ below normal, units_shifted below normal]
  exact ⟨Nat.div_mul_le_self _ _, Nat.lt_mul_of_div_lt (Nat.lt_succ_self _) (Nat.two_pow_pos _)⟩

/-- A quotient of units lies between the middles around a code, or on one of them if it is even. -/
structure Rounds (code numerator denominator : Nat) : Prop where
  lower : (units (code - 1) + units code) * denominator ≤ 2 * numerator
  upper : 2 * numerator ≤ (units code + units (code + 1)) * denominator
  inside :
    code % 2 = 1 →
      (units (code - 1) + units code) * denominator < 2 * numerator ∧
        2 * numerator < (units code + units (code + 1)) * denominator

/-- A quotient lies between the middles around some code, and infinity takes what is beyond it. -/
theorem exists_rounds
    (numerator : Nat) {denominator : Nat}
    (positive : 0 < denominator) :
    ∃ code, Rounds code numerator denominator ∧
      nearestCode numerator denominator = min code infinity := by
  obtain ⟨floorLe, ltNext⟩ := floorCode_spec (numerator / denominator)
  unfold nearestCode
  generalize floorCode (numerator / denominator) = below at floorLe ltNext ⊢
  rw [Nat.le_div_iff_mul_le positive] at floorLe
  rw [Nat.div_lt_iff_lt_mul positive] at ltNext
  refine ⟨_, ?_, rfl⟩
  have previous : units (below - 1) * denominator ≤ units below * denominator :=
    Nat.mul_le_mul_right _ (units_strictMono.monotone (Nat.sub_le below 1))
  have previousOdd (odd : below % 2 = 1) :
      units (below - 1) * denominator < units below * denominator :=
    Nat.mul_lt_mul_of_pos_right (units_strictMono (by omega)) positive
  have next : units (below + 1) * denominator < units (below + 1 + 1) * denominator :=
    Nat.mul_lt_mul_of_pos_right (units_strictMono (Nat.lt_succ_self _)) positive
  have isBelow
      (upper : 2 * numerator ≤ (units below + units (below + 1)) * denominator)
      (inside : below % 2 = 1 → 2 * numerator < (units below + units (below + 1)) * denominator) :
      Rounds below numerator denominator := by
    rw [Nat.add_mul] at upper inside
    constructor <;> simp only [Nat.add_mul] <;> omega
  have isNext
      (lower : (units below + units (below + 1)) * denominator ≤ 2 * numerator)
      (inside : below % 2 = 0 → (units below + units (below + 1)) * denominator < 2 * numerator) :
      Rounds (below + 1) numerator denominator := by
    rw [Nat.add_mul] at lower inside
    constructor <;> simp only [Nat.add_mul, Nat.add_sub_cancel] <;> omega
  split
  case isTrue less =>
    exact isBelow (Nat.le_of_lt less) fun _ => less
  case isFalse notLess =>
    split
    case isTrue greater =>
      exact isNext (Nat.le_of_lt greater) fun _ => greater
    case isFalse notGreater =>
      -- On the middle itself the even one of both codes is taken.
      rcases Nat.mod_two_eq_zero_or_one below with even | odd
      · rw [even, Nat.add_zero]
        exact isBelow (Nat.not_lt.mp notGreater) (by omega)
      · rw [odd]
        exact isNext (Nat.not_lt.mp notLess) (by omega)

/-- A quotient that is not greater is not rounded to a greater code. -/
theorem Rounds.code_le
    {code other numerator denominator otherNumerator otherDenominator : Nat}
    (rounds : Rounds code numerator denominator)
    (otherRounds : Rounds other otherNumerator otherDenominator)
    (positive : 0 < denominator)
    (otherPositive : 0 < otherDenominator)
    (le : numerator * otherDenominator ≤ otherNumerator * denominator) :
    code ≤ other := by
  by_contra greater
  rw [Nat.not_le] at greater
  have lower :
      (units (code - 1) + units code) * denominator * otherDenominator ≤
        2 * numerator * otherDenominator :=
    Nat.mul_le_mul_right _ rounds.lower
  have upper :
      2 * otherNumerator * denominator ≤
        (units other + units (other + 1)) * otherDenominator * denominator :=
    Nat.mul_le_mul_right _ otherRounds.upper
  have lowerOdd (odd : code % 2 = 1) :
      (units (code - 1) + units code) * denominator * otherDenominator <
        2 * numerator * otherDenominator :=
    Nat.mul_lt_mul_of_pos_right (rounds.inside odd).1 otherPositive
  have upperOdd (odd : other % 2 = 1) :
      2 * otherNumerator * denominator <
        (units other + units (other + 1)) * otherDenominator * denominator :=
    Nat.mul_lt_mul_of_pos_right (otherRounds.inside odd).2 positive
  have previous : units other ≤ units (code - 1) := units_strictMono.monotone (by omega)
  have next : units (other + 1) ≤ units code := units_strictMono.monotone greater
  have scaled :
      (units other + units (other + 1)) * (denominator * otherDenominator) ≤
        (units (code - 1) + units code) * (denominator * otherDenominator) :=
    Nat.mul_le_mul_right _ (Nat.add_le_add previous next)
  have scaledEven (apart : other + 1 < code) :
      (units other + units (other + 1)) * (denominator * otherDenominator) <
        (units (code - 1) + units code) * (denominator * otherDenominator) :=
    Nat.mul_lt_mul_of_pos_right (Nat.add_lt_add_of_le_of_lt previous (units_strictMono apart))
      (Nat.mul_pos positive otherPositive)
  rw [Nat.mul_right_comm _ otherDenominator] at upper upperOdd
  rw [← Nat.mul_assoc, ← Nat.mul_assoc] at scaled scaledEven
  simp only [Nat.mul_assoc 2] at lower upper lowerOdd upperOdd
  -- Codes that are both even are no neighbours, and an odd code leaves its middles to them.
  omega

/-- A quotient is rounded to the code around which it lies. -/
theorem nearestCode_of_rounds
    {code numerator denominator : Nat}
    (finite : code < infinity)
    (positive : 0 < denominator)
    (rounds : Rounds code numerator denominator) :
    nearestCode numerator denominator = code := by
  obtain ⟨other, otherRounds, nearest⟩ := exists_rounds numerator positive
  have le : code ≤ other := rounds.code_le otherRounds positive positive (Nat.le_refl _)
  have ge : other ≤ code := otherRounds.code_le rounds positive positive (Nat.le_refl _)
  obtain rfl : code = other := Nat.le_antisymm le ge
  rw [nearest, Nat.min_eq_left (Nat.le_of_lt finite)]

end Bhasha.Binary64
