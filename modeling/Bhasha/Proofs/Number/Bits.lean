import Bhasha.Number.Binary64

namespace Bhasha.Binary64

/-!
# Numbers and their codes

A positive number is unpacked into a significand and a place, which its code
determines and which are ordered as the codes are; so positive numbers are ordered as
their codes.
-/

open Float.Model
open Float.Model.UnpackedFloat

/-- The mantissa is the lowest part of the bits. -/
theorem toNat_unpackMantissa (bits : BitVec 64) :
    (@unpackMantissa Format.binary64 bits).toNat = bits.toNat % 2 ^ 52 := by
  simp [unpackMantissa]

theorem toNat_unpackExponent (bits : BitVec 64) :
    (@unpackExponent Format.binary64 bits).toNat = bits.toNat / 2 ^ 52 % 2 ^ 11 := by
  simp [unpackExponent, Nat.shiftRight_eq_div_pow]

theorem toNat_unpackSign (bits : BitVec 64) :
    (@unpackSign Format.binary64 bits).toNat = bits.toNat / 2 ^ 63 := by
  have bound : bits.toNat < 2 ^ 64 := bits.isLt
  have part : @unpackSign Format.binary64 bits = bits.extractLsb' 63 1 := rfl
  rw [part, BitVec.extractLsb'_toNat, Nat.shiftRight_eq_div_pow]
  omega

/-- The significand of a code, with its leading bit unless the code is below the normal ones. -/
def significand (code : Nat) : Nat :=
  if code < 2 ^ 52 then code else 2 ^ 52 + code % 2 ^ 52

/-- The power of two by which the significand of a code is scaled. -/
def place (code : Nat) : Int :=
  (max (code / 2 ^ 52) 1 : Nat) - 1075

theorem significand_pos
    {code : Nat}
    (some : code ≠ 0) :
    0 < significand code := by
  unfold significand
  split <;> omega

/-- The bits of a finite number are unpacked into its sign and its code's significand and place. -/
theorem unpack_finite
    {bits : BitVec 64} {code : Nat}
    (same : bits.toNat % 2 ^ 63 = code)
    (some : code ≠ 0)
    (finite : code < infinity) :
    UnpackedFloat.unpack Format.binary64 bits =
      .finite (Sign.ofBitVec (@unpackSign Format.binary64 bits)) (significand code) (place code)
        (significand_pos some) := by
  subst same
  have mantissa := toNat_unpackMantissa bits
  have exponent := toNat_unpackExponent bits
  simp only [infinity] at finite
  have noSpecial : @unpackExponent Format.binary64 bits ≠ -1#11 := by
    intro special
    have all := congrArg BitVec.toNat special
    rw [exponent] at all
    simp at all
    omega
  have bias : (Format.binary64.exponentBias : Int) + (52 : Nat) = 1075 := rfl
  -- Subnormal numbers share the place of the smallest normal ones but have no leading bit.
  dsimp only [UnpackedFloat.unpack]
  rw [if_neg noSpecial, bias]
  by_cases subnormal : @unpackExponent Format.binary64 bits = 0#11
  · rw [if_pos subnormal]
    have low : bits.toNat / 2 ^ 52 % 2 ^ 11 = 0 := by
      rw [← exponent, subnormal]
      rfl
    have mantissa_ne : @unpackMantissa Format.binary64 bits ≠ 0#52 := by
      intro zero
      have clear : bits.toNat % 2 ^ 52 = 0 := by
        rw [← mantissa, zero]
        rfl
      omega
    rw [dif_neg mantissa_ne, UnpackedFloat.finite.injEq]
    refine ⟨rfl, ?_, ?_⟩
    · rw [mantissa, significand, if_pos (by omega)]
      omega
    · rw [exponent, place]
      omega
  · rw [if_neg subnormal]
    have high : bits.toNat / 2 ^ 52 % 2 ^ 11 ≠ 0 := by
      intro low
      apply subnormal
      apply BitVec.eq_of_toNat_eq
      rw [exponent, low]
      rfl
    rw [UnpackedFloat.finite.injEq]
    refine ⟨rfl, ?_, ?_⟩
    · rw [BitVec.toNat_append, ← Nat.shiftLeft_add_eq_or_of_lt (BitVec.isLt _), mantissa,
        significand, if_neg (by omega)]
      change 1 * 2 ^ 52 + _ = _
      omega
    · rw [exponent, place]
      omega

/-- The sign of bits is negative exactly if the highest bit is set. -/
theorem sign_unpackSign (bits : BitVec 64) :
    Sign.ofBitVec (@unpackSign Format.binary64 bits) =
      if 2 ^ 63 ≤ bits.toNat then .negative else .positive := by
  have bound : bits.toNat < 2 ^ 64 := bits.isLt
  have clear : @unpackSign Format.binary64 bits = 0#1 ↔ ¬ 2 ^ 63 ≤ bits.toNat := by
    rw [← BitVec.toNat_inj, toNat_unpackSign, BitVec.toNat_ofNat]
    omega
  rw [Sign.ofBitVec]
  split <;> rename_i bit <;> rw [clear] at bit
  · rw [if_neg bit]
  · rw [if_pos (Decidable.not_not.mp bit)]

/-- The bits of a positive finite magnitude are unpacked into its significand and its place. -/
theorem unpack_code
    {bits : BitVec 64} {code : Nat}
    (same : bits.toNat = code)
    (some : code ≠ 0)
    (finite : code < infinity) :
    UnpackedFloat.unpack Format.binary64 bits =
      .finite .positive (significand code) (place code) (significand_pos some) := by
  have low : bits.toNat < 2 ^ 63 := by
    simp only [infinity] at finite
    omega
  rw [unpack_finite ((Nat.mod_eq_of_lt low).trans same) some finite, sign_unpackSign,
    if_neg (Nat.not_le.mpr low)]

/-- The sign bit of a positive number is clear. -/
theorem toNat_of_positive
    {bit : BitVec 1}
    (sign : Sign.ofBitVec bit = .positive) :
    bit.toNat = 0 := by
  rw [Sign.ofBitVec] at sign
  split at sign
  case isTrue clear =>
    rw [clear]
    rfl
  case isFalse =>
    cases sign

/-- What is unpacked into a positive finite number are the bits of a code. -/
theorem code_of_unpack
    {bits : BitVec 64} {mantissa : Nat} {exponent : Int} {some : 0 < mantissa}
    (unpacked :
      UnpackedFloat.unpack Format.binary64 bits = .finite .positive mantissa exponent some) :
    bits.toNat ≠ 0 ∧ bits.toNat < infinity := by
  have exponent_eq := toNat_unpackExponent bits
  have sign_eq := toNat_unpackSign bits
  have bound : bits.toNat < 2 ^ 64 := bits.isLt
  have notZero : bits.toNat ≠ 0 := by
    intro zero
    obtain rfl : bits = 0#64 := BitVec.eq_of_toNat_eq zero
    cases unpacked
  dsimp only [UnpackedFloat.unpack] at unpacked
  by_cases special : @unpackExponent Format.binary64 bits = -1#11
  · rw [if_pos special] at unpacked
    by_cases clear : @unpackMantissa Format.binary64 bits = 0#52
    · rw [if_pos clear] at unpacked
      cases unpacked
    · rw [if_neg clear] at unpacked
      cases unpacked
  · rw [if_neg special] at unpacked
    have notAll : bits.toNat / 2 ^ 52 % 2 ^ 11 ≠ 2047 := by
      intro all
      apply special
      apply BitVec.eq_of_toNat_eq
      rw [exponent_eq, all]
      rfl
    have sign : Sign.ofBitVec (@unpackSign Format.binary64 bits) = .positive := by
      by_cases subnormal : @unpackExponent Format.binary64 bits = 0#11
      · rw [if_pos subnormal] at unpacked
        by_cases clear : @unpackMantissa Format.binary64 bits = 0#52
        · rw [dif_pos clear] at unpacked
          cases unpacked
        · rw [dif_neg clear] at unpacked
          exact (UnpackedFloat.finite.inj unpacked).1
      · rw [if_neg subnormal] at unpacked
        exact (UnpackedFloat.finite.inj unpacked).1
    have positive : bits.toNat / 2 ^ 63 = 0 := sign_eq.symm.trans (toNat_of_positive sign)
    refine ⟨notZero, ?_⟩
    simp only [infinity]
    omega

/-- Places come before significands in the order of codes. -/
theorem code_lt_iff (first second : Nat) :
    first < second ↔
      place first < place second ∨
        place first = place second ∧ significand first < significand second := by
  unfold place significand
  split <;> split <;> omega

/-- Significands at their places are ordered as the codes are. -/
theorem compare_code (first second : Nat) :
    (compare (place first) (place second)).then
        (compare (significand first) (significand second)) =
      compare first second := by
  rcases Nat.lt_trichotomy first second with less | rfl | greater
  · rw [Nat.compare_eq_lt.mpr less]
    rcases (code_lt_iff first second).mp less with places | ⟨same, significands⟩
    · rw [Int.compare_eq_lt.mpr places]
      rfl
    · rw [same, Int.compare_eq_eq.mpr rfl, Nat.compare_eq_lt.mpr significands]
      rfl
  · rw [Int.compare_eq_eq.mpr rfl, Nat.compare_eq_eq.mpr rfl, Nat.compare_eq_eq.mpr rfl]
    rfl
  · rw [Nat.compare_eq_gt.mpr greater]
    rcases (code_lt_iff second first).mp greater with places | ⟨same, significands⟩
    · rw [Int.compare_eq_gt.mpr places]
      rfl
    · rw [same, Int.compare_eq_eq.mpr rfl, Nat.compare_eq_gt.mpr significands]
      rfl

/-- Unpacked numbers are compared where numbers are. -/
theorem le_iff_unpack (first second : Float) :
    first ≤ second ↔ first.toModel.unpack.le second.toModel.unpack = true := by
  change first.le second = true ↔ _
  rw [Float.le, decide_eq_true_iff]
  rfl

theorem lt_iff_unpack (first second : Float) :
    first < second ↔ first.toModel.unpack.lt second.toModel.unpack = true := by
  change first.lt second = true ↔ _
  rw [Float.lt, decide_eq_true_iff]
  rfl

/-- A finite number that is positive and not zero, by its sign and its code. -/
structure Positive (x : Float) : Prop where
  sign : isNegative x = false
  some : code x ≠ 0
  finite : code x < infinity

/-- A number without a sign has the bits of its code. -/
theorem code_eq_toNat
    {x : Float}
    (sign : isNegative x = false) :
    code x = x.toModel.toBits.toBitVec.toNat := by
  have low : x.toBits.toNat < 2 ^ 63 := by
    simpa [isNegative] using sign
  rw [code, Nat.mod_eq_of_lt low]
  rfl

/-- A positive number is unpacked into the significand and the place of its code. -/
theorem Positive.unpack
    {x : Float}
    (positive : Positive x) :
    x.toModel.unpack =
      .finite .positive (significand (code x)) (place (code x))
        (significand_pos positive.some) :=
  unpack_code (code_eq_toNat positive.sign).symm positive.some positive.finite

/-- What is unpacked into a positive finite number is one. -/
theorem Positive.of_unpack
    {x : Float} {mantissa : Nat} {exponent : Int} {some : 0 < mantissa}
    (unpacked : x.toModel.unpack = .finite .positive mantissa exponent some) :
    Positive x := by
  obtain ⟨notZero, finite⟩ := code_of_unpack unpacked
  have sign : isNegative x = false := by
    have low : x.toBits.toNat < 2 ^ 63 := Nat.lt_trans finite (by decide)
    simpa [isNegative] using low
  have bits := code_eq_toNat sign
  exact ⟨sign, bits ▸ notZero, bits ▸ finite⟩

/-- Positive numbers are compared as their codes are. -/
theorem Positive.compare_unpack
    {x y : Float}
    (first : Positive x)
    (second : Positive y) :
    x.toModel.unpack.compare y.toModel.unpack = Option.some (compare (code x) (code y)) := by
  rw [first.unpack, second.unpack, ← compare_code]
  rfl

/-- Positive numbers are ordered as their codes are. -/
theorem Positive.le_iff
    {x y : Float}
    (first : Positive x)
    (second : Positive y) :
    x ≤ y ↔ code x ≤ code y := by
  rw [le_iff_unpack, UnpackedFloat.le, first.compare_unpack second]
  exact Nat.isLE_compare

theorem Positive.lt_iff
    {x y : Float}
    (first : Positive x)
    (second : Positive y) :
    x < y ↔ code x < code y := by
  rw [lt_iff_unpack, UnpackedFloat.lt, first.compare_unpack second, beq_iff_eq,
    Option.some_inj, Nat.compare_eq_lt]

/-- A number between positive ones is positive. -/
theorem Positive.between
    {low x high : Float}
    (lowPositive : Positive low)
    (highPositive : Positive high)
    (atLeast : low ≤ x)
    (below : x < high) :
    Positive x := by
  rw [le_iff_unpack, lowPositive.unpack] at atLeast
  rw [lt_iff_unpack, highPositive.unpack] at below
  cases unpacked : x.toModel.unpack with
  | notANumber =>
      rw [unpacked] at atLeast
      cases atLeast
  | infinity sign =>
      rw [unpacked] at atLeast below
      cases sign with
      | negative =>
          cases atLeast
      | positive =>
          cases below
  | zero sign =>
      rw [unpacked] at atLeast
      cases atLeast
  | finite sign mantissa exponent some =>
      cases sign with
      | negative =>
          rw [unpacked] at atLeast
          cases atLeast
      | positive =>
          exact .of_unpack unpacked

end Bhasha.Binary64
