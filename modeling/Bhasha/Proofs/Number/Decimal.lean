import Bhasha.Number.Decimal
import Bhasha.Proofs.Number.Rounding
import Mathlib.Algebra.Order.Field.Power
import Mathlib.Data.Rat.Cast.Order
import Mathlib.Tactic.Positivity
import Mathlib.Tactic.Ring

namespace Bhasha.Decimal

/-!
# Decimals and the codes nearest to them

A decimal has an exact rational value, and rounding depends on that value only: of
two decimals the greater one is not rounded to a smaller code.  The powers of ten
that are never computed do not change what a decimal is rounded to.
-/

open Binary64

/-- The exact value of a decimal. -/
def value (decimal : Decimal) : ℚ := decimal.digits * 10 ^ decimal.exponent

/-- A decimal lies between the middles around a code. -/
def RoundsTo (decimal : Decimal) (code : Nat) : Prop :=
  Rounds code (decimal.digits * 10 ^ decimal.exponent.toNat * 2 ^ 1074)
    (10 ^ (-decimal.exponent).toNat)

/-- The value of a decimal as a quotient of whole numbers. -/
theorem value_eq (decimal : Decimal) :
    decimal.value =
      (decimal.digits * 10 ^ decimal.exponent.toNat : Nat) /
        (10 ^ (-decimal.exponent).toNat : Nat) := by
  rw [value]
  push_cast
  rcases le_total 0 decimal.exponent with up | down
  · have flat : (-decimal.exponent).toNat = 0 := by
      omega
    rw [flat, pow_zero, div_one, ← zpow_natCast, Int.toNat_of_nonneg up]
  · have flat : decimal.exponent.toNat = 0 := by
      omega
    rw [flat, pow_zero, mul_one, div_eq_mul_inv, ← zpow_natCast, ← zpow_neg,
      Int.toNat_of_nonneg (by omega), neg_neg]

theorem value_le_value_iff (decimal other : Decimal) :
    decimal.value ≤ other.value ↔
      decimal.digits * 10 ^ decimal.exponent.toNat * 10 ^ (-other.exponent).toNat ≤
        other.digits * 10 ^ other.exponent.toNat * 10 ^ (-decimal.exponent).toNat := by
  have positive (power : Nat) : (0 : ℚ) < (10 ^ power : Nat) :=
    Nat.cast_pos.mpr (Nat.pow_pos (by decide))
  rw [value_eq, value_eq, div_le_div_iff₀ (positive _) (positive _)]
  exact_mod_cast Iff.rfl

/-- A decimal that is not greater is not rounded to a greater code. -/
theorem RoundsTo.code_le
    {decimal other : Decimal} {code otherCode : Nat}
    (rounds : decimal.RoundsTo code)
    (otherRounds : other.RoundsTo otherCode)
    (le : decimal.value ≤ other.value) :
    code ≤ otherCode := by
  have positive (power : Nat) : 0 < 10 ^ power := Nat.pow_pos (by decide)
  rw [value_le_value_iff] at le
  refine Rounds.code_le rounds otherRounds (positive _) (positive _) ?_
  generalize 2 ^ 1074 = unit
  rw [Nat.mul_right_comm, Nat.mul_right_comm _ unit]
  exact Nat.mul_le_mul_right _ le

/-- A decimal that rounds to a smaller code is smaller. -/
theorem RoundsTo.value_lt
    {decimal other : Decimal} {code otherCode : Nat}
    (rounds : decimal.RoundsTo code)
    (otherRounds : other.RoundsTo otherCode)
    (less : code < otherCode) :
    decimal.value < other.value := by
  by_contra notLess
  exact absurd (otherRounds.code_le rounds (not_lt.mp notLess)) (Nat.not_le.mpr less)

/-- A decimal that rounds to a code other than zero has digits. -/
theorem RoundsTo.digits_pos
    {decimal : Decimal} {code : Nat}
    (rounds : decimal.RoundsTo code)
    (some : 0 < code) :
    0 < decimal.digits := by
  have lower := rounds.lower
  have grows : units 0 < units code := units_strictMono some
  have divided : 0 < 10 ^ (-decimal.exponent).toNat := Nat.pow_pos (by decide)
  have atLeast : 0 < (units (code - 1) + units code) * 10 ^ (-decimal.exponent).toNat :=
    Nat.mul_pos (by omega) divided
  generalize 2 ^ 1074 = unit at lower
  by_contra none
  rw [Nat.eq_zero_of_not_pos none, Nat.zero_mul, Nat.zero_mul] at lower
  omega

/-- Decimals with more powers of ten than are computed are infinite. -/
theorem nearestCode_of_huge
    {digits power : Nat}
    (some : digits ≠ 0)
    (huge : 400 < power) :
    Binary64.nearestCode (digits * 10 ^ power * 2 ^ 1074) 1 = infinity := by
  obtain ⟨code, rounds, nearest⟩ := exists_rounds (digits * 10 ^ power * 2 ^ 1074) Nat.one_pos
  rw [nearest, Nat.min_eq_right]
  by_contra finite
  have top : 2 * units infinity < 2 * (10 ^ 400 * 2 ^ 1074) := by
    decide +kernel
  have grows {least : Nat} (more : least < power) :
      10 ^ least * 2 ^ 1074 ≤ digits * 10 ^ power * 2 ^ 1074 :=
    Nat.mul_le_mul_right _ ((Nat.pow_le_pow_right (by decide) (Nat.le_of_lt more)).trans
      (Nat.le_mul_of_pos_left _ (Nat.pos_of_ne_zero some)))
  have large := grows huge
  have here : units code ≤ units infinity := units_strictMono.monotone (by omega)
  have next : units (code + 1) ≤ units infinity := units_strictMono.monotone (by omega)
  have upper := rounds.upper
  clear grows
  generalize digits * 10 ^ power * 2 ^ 1074 = amount at *
  generalize 10 ^ 400 * 2 ^ 1074 = limit at *
  omega

/-- Decimals with more places than are computed are zero. -/
theorem nearestCode_of_tiny
    {digits power : Nat}
    (tiny : digits.log2 + 1100 < power) :
    Binary64.nearestCode (digits * 2 ^ 1074) (10 ^ power) = 0 := by
  have divided : 0 < 10 ^ power := Nat.pow_pos (by decide)
  obtain ⟨code, rounds, nearest⟩ := exists_rounds (digits * 2 ^ 1074) divided
  rw [nearest]
  by_contra some
  have positive : units 0 < units code := units_strictMono (by omega)
  have atLeast : 10 ^ power ≤ (units (code - 1) + units code) * 10 ^ power :=
    Nat.le_mul_of_pos_left _ (by omega)
  have below : digits * 2 ^ 1074 < 2 ^ (digits.log2 + 1 + 1074) := by
    rw [Nat.pow_add]
    exact Nat.mul_lt_mul_of_pos_right Nat.lt_log2_self (Nat.two_pow_pos 1074)
  have grows : 2 * 2 ^ (digits.log2 + 1 + 1074) ≤ 10 ^ power := by
    rw [← Nat.pow_succ']
    exact (Nat.pow_le_pow_right (by decide) (by omega)).trans
      (Nat.pow_le_pow_left (by decide) power)
  have lower := rounds.lower
  generalize digits * 2 ^ 1074 = amount at *
  generalize 10 ^ power = scale at *
  omega

/-- The code nearest to a decimal, with all its powers of ten computed. -/
theorem nearestCode_eq (decimal : Decimal) :
    decimal.nearestCode =
      Binary64.nearestCode (decimal.digits * 10 ^ decimal.exponent.toNat * 2 ^ 1074)
        (10 ^ (-decimal.exponent).toNat) := by
  obtain ⟨digits, exponent⟩ := decimal
  cases exponent with
  | ofNat power =>
      have up : (Int.ofNat power).toNat = power := rfl
      have down : (-Int.ofNat power).toNat = 0 := by simp
      dsimp only [nearestCode]
      rw [up, down, Nat.pow_zero]
      split
      case isTrue none =>
        simp only [none, Nat.zero_mul]
        decide +kernel
      case isFalse some =>
        split
        case isTrue huge => exact (nearestCode_of_huge some huge).symm
        case isFalse => rfl
  | negSucc power =>
      have up : (Int.negSucc power).toNat = 0 := rfl
      have down : (-Int.negSucc power).toNat = power + 1 := rfl
      dsimp only [nearestCode]
      rw [up, down, Nat.pow_zero, Nat.mul_one]
      split
      case isTrue tiny => exact (nearestCode_of_tiny tiny).symm
      case isFalse => rfl

/-- Every decimal rounds to some code, and infinity takes those beyond it. -/
theorem exists_roundsTo (decimal : Decimal) :
    ∃ code, decimal.RoundsTo code ∧ decimal.nearestCode = min code infinity := by
  have divided : 0 < 10 ^ (-decimal.exponent).toNat := Nat.pow_pos (by decide)
  rw [nearestCode_eq]
  exact exists_rounds _ divided

/-- A decimal that rounds to the code of a finite magnitude is read as that. -/
theorem nearestCode_of_roundsTo
    {decimal : Decimal} {code : Nat}
    (finite : code < infinity)
    (rounds : decimal.RoundsTo code) :
    decimal.nearestCode = code := by
  have divided : 0 < 10 ^ (-decimal.exponent).toNat := Nat.pow_pos (by decide)
  rw [nearestCode_eq]
  exact nearestCode_of_rounds finite divided rounds

/-- A greater decimal is not read as a smaller number. -/
theorem nearestCode_mono
    {decimal other : Decimal}
    (le : decimal.value ≤ other.value) :
    decimal.nearestCode ≤ other.nearestCode := by
  obtain ⟨code, rounds, nearest⟩ := decimal.exists_roundsTo
  obtain ⟨otherCode, otherRounds, otherNearest⟩ := other.exists_roundsTo
  have codes : code ≤ otherCode := rounds.code_le otherRounds le
  rw [nearest, otherNearest]
  omega

/-- Decimals of the same value are read as the same number. -/
theorem nearestCode_congr
    {decimal other : Decimal}
    (same : decimal.value = other.value) :
    decimal.nearestCode = other.nearestCode :=
  Nat.le_antisymm (nearestCode_mono same.le) (nearestCode_mono same.ge)

/-- A decimal of `10 ^ 400` or more is read as infinity. -/
theorem nearestCode_of_le_value
    {decimal : Decimal}
    (large : (10 : ℚ) ^ (400 : ℤ) ≤ decimal.value) :
    decimal.nearestCode = infinity := by
  have power : (⟨1, 400⟩ : Decimal).value = (10 : ℚ) ^ (400 : ℤ) := by
    rw [value, Nat.cast_one, one_mul]
  have limit : (⟨1, 400⟩ : Decimal).nearestCode = infinity := by
    decide +kernel
  have atLeast := nearestCode_mono (power.trans_le large)
  obtain ⟨code, -, nearest⟩ := decimal.exists_roundsTo
  omega

/-- A decimal of `10 ^ -400` or less is read as zero. -/
theorem nearestCode_of_value_le
    {decimal : Decimal}
    (small : decimal.value ≤ (10 : ℚ) ^ (-400 : ℤ)) :
    decimal.nearestCode = 0 := by
  have power : (⟨1, -400⟩ : Decimal).value = (10 : ℚ) ^ (-400 : ℤ) := by
    rw [value, Nat.cast_one, one_mul]
  have limit : (⟨1, -400⟩ : Decimal).nearestCode = 0 := by
    decide +kernel
  have atMost := nearestCode_mono (small.trans_eq power.symm)
  omega

end Bhasha.Decimal
