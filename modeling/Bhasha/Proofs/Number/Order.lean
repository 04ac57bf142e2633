import Mathlib
import Bhasha.Proofs.Number.Code

namespace Bhasha.Binary64

/-!
# The order of numbers

Two numbers of which neither is NaN are compared as their ranks are: a number is
unpacked into its sign and the kind of its magnitude, and zeros, finite magnitudes
and infinities follow each other as the codes do.  NaN is not comparable with any
number, so that no comparison with it holds.
-/

open Float.Model
open Float.Model.UnpackedFloat

/-- The sign of a number. -/
def signOf (x : Float) : Sign := if isNegative x then .negative else .positive

/-- A number that is not NaN is unpacked into its sign and the kind of its magnitude. -/
inductive Unpacks (x : Float) : UnpackedFloat → Prop where
  | zero
      (zero : code x = 0) :
      Unpacks x (.zero (signOf x))
  | finite
      (some : code x ≠ 0)
      (finite : code x < infinity) :
      Unpacks x
        (.finite (signOf x) (significand (code x)) (place (code x)) (significand_pos some))
  | infinity
      (infinite : code x = infinity) :
      Unpacks x (.infinity (signOf x))

theorem unpack_ofCode_zero (negative : Bool) :
    (ofCode negative 0).toModel.unpack = .zero (if negative then .negative else .positive) := by
  cases negative with
  | false =>
      rfl
  | true =>
      rfl

theorem unpack_ofCode_infinity (negative : Bool) :
    (ofCode negative infinity).toModel.unpack =
      .infinity (if negative then .negative else .positive) := by
  cases negative with
  | false =>
      rfl
  | true =>
      rfl

/-- Every number that is not NaN is unpacked so. -/
theorem unpacks
    {x : Float}
    (number : x.isNaN = false) :
    Unpacks x x.toModel.unpack := by
  have bound := code_le_infinity number
  by_cases zero : code x = 0
  · have unpacked := unpack_ofCode_zero (isNegative x)
    rw [← zero, ofCode_code] at unpacked
    rw [unpacked]
    exact .zero zero
  by_cases infinite : code x = infinity
  · have unpacked := unpack_ofCode_infinity (isNegative x)
    rw [← infinite, ofCode_code] at unpacked
    rw [unpacked]
    exact .infinity infinite
  · have finite : code x < infinity := Nat.lt_of_le_of_ne bound infinite
    have unpacked : x.toModel.unpack = _ :=
      @unpack_finite x.toModel.toBits.toBitVec (code x) rfl zero finite
    have sign : signOf x = Sign.ofBitVec (@unpackSign Format.binary64 x.toModel.toBits.toBitVec) := by
      rw [sign_unpackSign, signOf, isNegative]
      simp only [decide_eq_true_eq]
      rfl
    rw [unpacked, ← sign]
    exact .finite zero finite

theorem rank_eq_apply (x : Float) :
    rank x = (signOf x).apply (code x) := by
  unfold rank signOf
  split <;> rfl

/-- What lies between two numbers of which the second has the greater magnitude. -/
def toward : Sign → Ordering
  | .positive => .lt
  | .negative => .gt

/-- The sign of the greater magnitude decides a comparison. -/
theorem compare_apply_of_lt
    {lower upper : Nat}
    (less : lower < upper)
    (sign otherSign : Sign) :
    compare (sign.apply lower) (otherSign.apply upper) = toward otherSign := by
  cases otherSign with
  | positive =>
      have below : sign.apply lower < Sign.apply .positive upper := by
        cases sign <;> simp only [Sign.apply] <;> omega
      exact Int.compare_eq_lt.mpr below
  | negative =>
      have above : Sign.apply .negative upper < sign.apply lower := by
        cases sign <;> simp only [Sign.apply] <;> omega
      exact Int.compare_eq_gt.mpr above

theorem compare_apply_of_gt
    {lower upper : Nat}
    (less : lower < upper)
    (sign otherSign : Sign) :
    compare (otherSign.apply upper) (sign.apply lower) = (toward otherSign).swap := by
  rw [← compare_apply_of_lt less sign otherSign]
  exact Std.OrientedCmp.eq_swap

/-- Magnitudes of one sign are compared as they are, or the other way round. -/
theorem compare_apply_same
    (first second : Nat)
    (sign : Sign) :
    compare (sign.apply first) (sign.apply second) =
      match sign with
      | .positive => compare first second
      | .negative => (compare first second).swap := by
  rcases Nat.lt_trichotomy first second with less | rfl | greater
  · rw [compare_apply_of_lt less, Nat.compare_eq_lt.mpr less]
    cases sign <;> rfl
  · rw [Int.compare_eq_eq.mpr rfl, Nat.compare_eq_eq.mpr rfl]
    cases sign <;> rfl
  · rw [compare_apply_of_gt greater, Nat.compare_eq_gt.mpr greater]
    cases sign <;> rfl

/-- Numbers are compared as their ranks are. -/
theorem Unpacks.compare_eq
    {x y : Float} {first second : UnpackedFloat}
    (unpacked : Unpacks x first)
    (otherUnpacked : Unpacks y second) :
    first.compare second = some (compare (rank x) (rank y)) := by
  have positive : 0 < Binary64.infinity := by
    decide
  rw [rank_eq_apply, rank_eq_apply]
  cases unpacked with
  | zero zero =>
      cases otherUnpacked with
      | zero otherZero =>
          rw [zero, otherZero]
          cases signOf x <;> cases signOf y <;> rfl
      | finite otherSome otherFinite =>
          rw [compare_apply_of_lt (by omega)]
          cases signOf y <;> rfl
      | infinity otherInfinite =>
          rw [compare_apply_of_lt (by omega)]
          cases signOf y <;> rfl
  | finite some finite =>
      cases otherUnpacked with
      | zero otherZero =>
          rw [compare_apply_of_gt (by omega)]
          cases signOf x <;> rfl
      | finite otherSome otherFinite =>
          generalize signOf x = sign, signOf y = otherSign
          cases sign with
          | positive =>
              cases otherSign with
              | positive =>
                  rw [compare_apply_same, ← compare_code]
                  rfl
              | negative =>
                  rw [Int.compare_eq_gt.mpr (by simp only [Sign.apply]; omega)]
                  rfl
          | negative =>
              cases otherSign with
              | positive =>
                  rw [Int.compare_eq_lt.mpr (by simp only [Sign.apply]; omega)]
                  rfl
              | negative =>
                  rw [compare_apply_same, ← compare_code]
                  rfl
      | infinity otherInfinite =>
          rw [compare_apply_of_lt (by omega)]
          cases signOf y <;> rfl
  | infinity infinite =>
      cases otherUnpacked with
      | zero otherZero =>
          rw [compare_apply_of_gt (by omega)]
          cases signOf x <;> rfl
      | finite otherSome otherFinite =>
          rw [compare_apply_of_gt (by omega)]
          cases signOf x <;> rfl
      | infinity otherInfinite =>
          rw [infinite, otherInfinite]
          cases signOf x <;> cases signOf y <;> rfl

theorem lt_iff_rank_lt
    {x y : Float}
    (number : x.isNaN = false)
    (otherNumber : y.isNaN = false) :
    x < y ↔ rank x < rank y := by
  rw [lt_iff_unpack, UnpackedFloat.lt, (unpacks number).compare_eq (unpacks otherNumber),
    beq_iff_eq, Option.some_inj, Int.compare_eq_lt]

theorem le_iff_rank_le
    {x y : Float}
    (number : x.isNaN = false)
    (otherNumber : y.isNaN = false) :
    x ≤ y ↔ rank x ≤ rank y := by
  rw [le_iff_unpack, UnpackedFloat.le, (unpacks number).compare_eq (unpacks otherNumber)]
  exact Int.isLE_compare

/-- NaN is unpacked into what is not comparable. -/
theorem compare_unpack_of_isNaN
    {x y : Float}
    (noNumber : x.isNaN = true ∨ y.isNaN = true) :
    x.toModel.unpack.compare y.toModel.unpack = none := by
  have unpack {z : Float} (noNumber : z.isNaN = true) : z.toModel.unpack = .notANumber :=
    UnpackedFloat.isNaN_iff.mp noNumber
  rcases noNumber with noNumber | noNumber
  · rw [unpack noNumber]
    rfl
  · rw [unpack noNumber]
    cases x.toModel.unpack with
    | notANumber | zero =>
        rfl
    | infinity sign | finite sign =>
        cases sign <;> rfl

/-- No comparison with NaN holds. -/
theorem not_lt_of_isNaN
    {x y : Float}
    (noNumber : x.isNaN = true ∨ y.isNaN = true) :
    ¬ x < y := by
  rw [lt_iff_unpack, UnpackedFloat.lt, compare_unpack_of_isNaN noNumber]
  exact Bool.false_ne_true

theorem not_le_of_isNaN
    {x y : Float}
    (noNumber : x.isNaN = true ∨ y.isNaN = true) :
    ¬ x ≤ y := by
  rw [le_iff_unpack, UnpackedFloat.le, compare_unpack_of_isNaN noNumber]
  exact Bool.false_ne_true

theorem beq_eq_false_of_isNaN
    {x y : Float}
    (noNumber : x.isNaN = true ∨ y.isNaN = true) :
    (x == y) = false := by
  simp only [Float.isNaN_eq_decide_eq_nan, decide_eq_true_eq] at noNumber
  rcases noNumber with rfl | rfl
  · exact Float.nan_beq_eq_false y
  · exact Float.beq_nan_eq_false x

/-- Equality of numbers is symmetric, also where one of them is NaN. -/
theorem beq_comm (x y : Float) : (x == y) = (y == x) := by
  rw [Bool.eq_iff_iff, Float.beq_iff_ne_nan_and_eq, Float.beq_iff_ne_nan_and_eq]
  tauto

/-- A number is at most another one exactly if it is smaller or equal. -/
theorem le_iff_lt_or_beq (x y : Float) :
    x ≤ y ↔ x < y ∨ (x == y) = true := by
  by_cases noNumber : x.isNaN = true ∨ y.isNaN = true
  · simp [not_le_of_isNaN noNumber, not_lt_of_isNaN noNumber, beq_eq_false_of_isNaN noNumber]
  · simp only [not_or, Bool.not_eq_true] at noNumber
    obtain ⟨number, otherNumber⟩ := noNumber
    rw [le_iff_rank_le number otherNumber, lt_iff_rank_lt number otherNumber,
      beq_iff_rank_eq number otherNumber, le_iff_lt_or_eq]

/-- What is smaller than a number, or greater, is a number. -/
theorem isNaN_of_lt
    {x y : Float}
    (less : x < y) :
    x.isNaN = false ∧ y.isNaN = false := by
  by_contra noNumber
  rw [not_and_or, Bool.not_eq_false, Bool.not_eq_false] at noNumber
  exact not_lt_of_isNaN noNumber less

theorem lt_trans
    {x y z : Float}
    (less : x < y)
    (more : y < z) :
    x < z := by
  obtain ⟨first, second⟩ := isNaN_of_lt less
  obtain ⟨-, third⟩ := isNaN_of_lt more
  rw [lt_iff_rank_lt first second] at less
  rw [lt_iff_rank_lt second third] at more
  rw [lt_iff_rank_lt first third]
  exact less.trans more

/-- A number is finite exactly if its code is below that of infinity. -/
theorem isFinite_iff {x : Float} :
    x.isFinite = true ↔ code x < infinity := by
  have shape : x.isFinite = x.toModel.unpack.isFinite := rfl
  cases number : x.isNaN with
  | true =>
      have unpacked : x.toModel.unpack = .notANumber := UnpackedFloat.isNaN_iff.mp number
      rw [shape, unpacked]
      have beyond := isNaN_iff.mp number
      simp [UnpackedFloat.isFinite, Nat.le_of_lt beyond]
  | false =>
      have unpacked := unpacks number
      rw [shape]
      generalize x.toModel.unpack = form at unpacked
      cases unpacked with
      | zero zero =>
          exact ⟨fun _ => by rw [zero]; decide, fun _ => rfl⟩
      | finite some finite =>
          exact ⟨fun _ => finite, fun _ => rfl⟩
      | infinity infinite =>
          simp [UnpackedFloat.isFinite, infinite]

end Bhasha.Binary64
