import Mathlib
import Bhasha.Proofs.Number.Bits

namespace Bhasha.Binary64

/-!
# Numbers by sign and code

A number that is not NaN is its sign together with the code of its magnitude, and
every sign and every code up to that of infinity make such a number.  The rank of
a number puts both into one whole number, and numbers are equal exactly if their
ranks are.
-/

open Float.Model
open Float.Model.UnpackedFloat

/-- The bits of NaN are those whose magnitude is beyond that of infinity. -/
theorem isNaNBits_iff (bits : BitVec 64) :
    @isNaNBits Format.binary64 bits = true ↔ infinity < bits.toNat % 2 ^ 63 := by
  have bound : bits.toNat < 2 ^ 64 := bits.isLt
  have special :
      @unpackExponent Format.binary64 bits = -1#11 ↔ bits.toNat / 2 ^ 52 % 2 ^ 11 = 2047 := by
    rw [← BitVec.toNat_inj, toNat_unpackExponent]
    rfl
  have clear : @unpackMantissa Format.binary64 bits = 0#52 ↔ bits.toNat % 2 ^ 52 = 0 := by
    rw [← BitVec.toNat_inj, toNat_unpackMantissa]
    rfl
  have shape :
      @isNaNBits Format.binary64 bits = true ↔
        @unpackExponent Format.binary64 bits = -1#11 ∧
          @unpackMantissa Format.binary64 bits ≠ 0#52 :=
    decide_eq_true_iff
  rw [shape, Ne, special, clear]
  simp only [infinity]
  omega

/-- A number is NaN exactly if its code is beyond that of infinity. -/
theorem isNaN_iff {x : Float} :
    x.isNaN = true ↔ infinity < code x := by
  rw [Float.isNaN_eq_decide_eq_nan, decide_eq_true_eq]
  constructor
  · rintro rfl
    decide +kernel
  · intro beyond
    obtain ⟨special, some⟩ := of_decide_eq_true ((isNaNBits_iff x.toBits.toBitVec).mpr beyond)
    apply Float.toBits_inj.mp
    apply UInt64.toBitVec_inj.mp
    exact x.toModel.valid.eq_packedNaN special some

theorem code_le_infinity
    {x : Float}
    (number : x.isNaN = false) :
    code x ≤ infinity := by
  rw [← Nat.not_lt, ← isNaN_iff, number]
  exact Bool.false_ne_true

/-- A sign and a code make a number with the bits of both. -/
theorem toNat_toBits_ofCode
    {code : Nat}
    (negative : Bool)
    (number : code ≤ infinity) :
    (ofCode negative code).toBits.toNat = code + if negative then 2 ^ 63 else 0 := by
  simp only [infinity] at number
  have bits :
      (UInt64.ofNat (code + if negative then 2 ^ 63 else 0)).toBitVec.toNat =
        code + if negative then 2 ^ 63 else 0 := by
    apply Nat.mod_eq_of_lt
    split <;> omega
  have notNaN : ¬ @isNaNBits Format.binary64
        (UInt64.ofNat (code + if negative then 2 ^ 63 else 0)).toBitVec = true := by
    rw [isNaNBits_iff, bits]
    simp only [infinity]
    split <;> omega
  have packed :
      (ofCode negative code).toBits.toBitVec =
        (UInt64.ofNat (code + if negative then 2 ^ 63 else 0)).toBitVec := by
    change UnpackedFloat.pack Format.binary64 (UnpackedFloat.unpack Format.binary64 _) = _
    rw [pack_unpack, if_neg notNaN]
  rw [← UInt64.toNat_toBitVec, packed, bits]

theorem code_ofCode
    {magnitude : Nat}
    (negative : Bool)
    (number : magnitude ≤ infinity) :
    code (ofCode negative magnitude) = magnitude := by
  rw [code, toNat_toBits_ofCode negative number]
  simp only [infinity] at number
  split <;> omega

theorem isNegative_ofCode
    {magnitude : Nat}
    (negative : Bool)
    (number : magnitude ≤ infinity) :
    isNegative (ofCode negative magnitude) = negative := by
  rw [isNegative, toNat_toBits_ofCode negative number]
  simp only [infinity] at number
  cases negative with
  | false =>
      rw [decide_eq_false_iff_not]
      simp only [Bool.false_eq_true, if_false]
      omega
  | true =>
      rw [decide_eq_true_iff]
      simp only [if_true]
      omega

theorem isNaN_ofCode
    {magnitude : Nat}
    (negative : Bool)
    (number : magnitude ≤ infinity) :
    (ofCode negative magnitude).isNaN = false := by
  rw [← Bool.not_eq_true, isNaN_iff, code_ofCode negative number, Nat.not_lt]
  exact number

/-- Every number is the number of its sign and its code. -/
theorem ofCode_code (x : Float) :
    ofCode (isNegative x) (code x) = x := by
  have bound : x.toBits.toNat < 2 ^ 64 := x.toBits.toNat_lt
  have bits : code x + (if isNegative x then 2 ^ 63 else 0) = x.toBits.toNat := by
    simp only [code, isNegative, decide_eq_true_eq]
    split <;> omega
  rw [ofCode, bits, UInt64.ofNat_toNat, Float.ofBits_toBits]

/-- A number whose code is zero is one of both zeros. -/
theorem eq_zero_of_code
    {x : Float}
    (zero : code x = 0) :
    x = 0 ∨ x = -0 := by
  rw [← ofCode_code x, zero]
  cases isNegative x with
  | false =>
      exact .inl (by decide +kernel)
  | true =>
      exact .inr (by decide +kernel)

/-- The place of a number in the order of all numbers, which both zeros share. -/
def rank (x : Float) : Int :=
  if isNegative x then -(code x : Int) else code x

theorem natAbs_rank (x : Float) :
    (rank x).natAbs = code x := by
  unfold rank
  split <;> omega

theorem rank_ofCode
    {magnitude : Nat}
    (negative : Bool)
    (number : magnitude ≤ infinity) :
    rank (ofCode negative magnitude) = if negative then -(magnitude : Int) else magnitude := by
  rw [rank, isNegative_ofCode negative number, code_ofCode negative number]

/-- Numbers of one rank have one code, and one sign unless they are zeros. -/
theorem eq_of_rank_eq
    {x y : Float}
    (same : rank x = rank y) :
    x = y ∨ code x = 0 ∧ code y = 0 := by
  have codes : code x = code y := by
    rw [← natAbs_rank, same, natAbs_rank]
  unfold rank at same
  by_cases signs : isNegative x = isNegative y
  · left
    rw [← ofCode_code x, signs, codes, ofCode_code]
  · right
    cases sign : isNegative x <;> cases otherSign : isNegative y <;>
      simp only [sign, otherSign, Bool.false_eq_true, if_false, if_true, not_true_eq_false]
        at same signs <;>
      omega

/-- Numbers are equal exactly if they have the same rank. -/
theorem beq_iff_rank_eq
    {x y : Float}
    (number : x.isNaN = false)
    (otherNumber : y.isNaN = false) :
    (x == y) = true ↔ rank x = rank y := by
  rw [Float.isNaN_eq_decide_eq_nan, decide_eq_false_iff_not] at number otherNumber
  rw [Float.beq_iff_ne_nan_and_eq]
  constructor
  · rintro ⟨-, -, rfl | ⟨rfl, rfl⟩ | ⟨rfl, rfl⟩⟩
    · rfl
    · decide +kernel
    · decide +kernel
  · intro same
    refine ⟨number, otherNumber, ?_⟩
    rcases eq_of_rank_eq same with rfl | ⟨zero, otherZero⟩
    · exact .inl rfl
    · rcases eq_zero_of_code zero with rfl | rfl <;>
        rcases eq_zero_of_code otherZero with rfl | rfl <;>
        simp

end Bhasha.Binary64
