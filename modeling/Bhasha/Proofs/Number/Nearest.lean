import Mathlib
import Bhasha.Proofs.Number.Code
import Bhasha.Proofs.Number.Decimal

namespace Bhasha.Binary64

/-!
# The number nearest to a rational

Every number has an exact rational value, and the numbers nearest to a rational
are those than which no other is nearer; of two that are equally near the one with
the even code is meant.  Infinity takes the place of the power of two after the last
finite magnitude, which is where rounding goes over to it.

A quotient is rounded to the number nearest to it, and no two numbers of different
value are nearest to the same rational.
-/

/-- The exact magnitude of a code. -/
def magnitude (code : Nat) : ℚ := units code / (2 ^ 1074 : Nat)

/-- The exact value of a number; that of infinity is the power of two after the last magnitude. -/
def value (x : Float) : ℚ :=
  if isNegative x then -magnitude (code x) else magnitude (code x)

/-- No number is nearer to a rational, and the code is even if another one is as near. -/
structure IsNearest (x : Float) (target : ℚ) : Prop where
  number : x.isNaN = false
  least : ∀ y : Float, y.isNaN = false → |value x - target| ≤ |value y - target|
  even : ∀ y : Float, y.isNaN = false → value y ≠ value x →
    |value y - target| = |value x - target| → code x % 2 = 0

theorem magnitude_strictMono : StrictMono magnitude := by
  intro lower upper less
  have grows : (units lower : ℚ) < units upper := Nat.cast_lt.mpr (units_strictMono less)
  exact div_lt_div_of_pos_right grows (Nat.cast_pos.mpr (Nat.two_pow_pos 1074))

theorem magnitude_zero : magnitude 0 = 0 := by
  have zero : units 0 = 0 := rfl
  rw [magnitude, zero, Nat.cast_zero, zero_div]

/-- The exact value at a rank. -/
def level (rank : ℤ) : ℚ :=
  if rank < 0 then -magnitude rank.natAbs else magnitude rank.natAbs

theorem level_natCast (code : Nat) : level code = magnitude code := by
  simp [level]

theorem level_neg (rank : ℤ) : level (-rank) = -level rank := by
  rcases lt_trichotomy rank 0 with negative | rfl | positive
  · simp [level, negative, negative.le]
  · simp [level, magnitude_zero]
  · simp [level, positive, positive.le]

theorem level_strictMono : StrictMono level := by
  apply strictMono_int_of_lt_succ
  intro rank
  cases rank with
  | ofNat code =>
      have next : Int.ofNat code + 1 = ((code + 1 : Nat) : ℤ) := rfl
      rw [next, Int.ofNat_eq_natCast, level_natCast, level_natCast]
      exact magnitude_strictMono (Nat.lt_succ_self code)
  | negSucc code =>
      have next : Int.negSucc code + 1 = -(code : ℤ) := by
        omega
      have previous : Int.negSucc code = -((code + 1 : Nat) : ℤ) := rfl
      rw [next, previous, level_neg, level_neg, neg_lt_neg_iff, level_natCast, level_natCast]
      exact magnitude_strictMono (Nat.lt_succ_self code)

theorem value_eq_level (x : Float) : value x = level (rank x) := by
  unfold value rank
  split
  · rw [level_neg, level_natCast]
  · rw [level_natCast]

theorem value_lt_value_iff (x y : Float) :
    value x < value y ↔ rank x < rank y := by
  rw [value_eq_level, value_eq_level, level_strictMono.lt_iff_lt]

theorem value_eq_value_iff (x y : Float) :
    value x = value y ↔ rank x = rank y := by
  rw [value_eq_level, value_eq_level, level_strictMono.injective.eq_iff]

theorem rank_le_infinity
    {x : Float}
    (number : x.isNaN = false) :
    -(infinity : ℤ) ≤ rank x ∧ rank x ≤ infinity := by
  have bound := code_le_infinity number
  rw [← natAbs_rank] at bound
  omega

/-- There is a number of every rank between those of both infinities. -/
theorem exists_rank
    {place : ℤ}
    (least : -(infinity : ℤ) ≤ place)
    (greatest : place ≤ infinity) :
    ∃ x : Float, x.isNaN = false ∧ rank x = place := by
  have bound : place.natAbs ≤ infinity := by
    omega
  refine ⟨ofCode (place < 0) place.natAbs, isNaN_ofCode _ bound, ?_⟩
  rw [rank_ofCode _ bound]
  split <;> simp only [decide_eq_true_eq] at * <;> omega

/-- Of two numbers the upper one is not farther from what is not below their middle. -/
theorem abs_sub_le_of_middle_le
    {lower upper target : ℚ}
    (less : lower < upper)
    (middle : lower + upper ≤ 2 * target) :
    |upper - target| ≤ |lower - target| := by
  rw [abs_sub_comm lower]
  exact abs_le_abs (by linarith) (by linarith)

theorem abs_sub_lt_of_middle_lt
    {lower upper target : ℚ}
    (less : lower < upper)
    (middle : lower + upper < 2 * target) :
    |upper - target| < |lower - target| := by
  rw [abs_sub_comm lower]
  exact lt_of_lt_of_le (abs_lt.mpr ⟨by linarith, by linarith⟩) (le_abs_self _)

/-- A rational lies between the middles around the value at a rank. -/
structure Centered (place : ℤ) (target : ℚ) : Prop where
  lower : -(infinity : ℤ) < place → level (place - 1) + level place ≤ 2 * target
  upper : place < infinity → 2 * target ≤ level place + level (place + 1)
  inside : place % 2 = 1 →
    level (place - 1) + level place < 2 * target ∧
      2 * target < level place + level (place + 1)

/-- Both signs have the same middles. -/
theorem Centered.neg
    {place : ℤ} {target : ℚ}
    (centered : Centered place target) :
    Centered (-place) (-target) := by
  have previous : level (-place - 1) = -level (place + 1) := by
    rw [← level_neg, neg_add']
  have next : level (-place + 1) = -level (place - 1) := by
    rw [← level_neg, neg_sub, sub_eq_neg_add]
  obtain ⟨lower, upper, inside⟩ := centered
  constructor
  · intro finite
    rw [previous, level_neg]
    linarith [upper (by omega)]
  · intro finite
    rw [next, level_neg]
    linarith [lower (by omega)]
  · intro odd
    obtain ⟨above, below⟩ := inside (by omega)
    rw [previous, next, level_neg]
    constructor <;> linarith

/-- A number is nearest to what lies between the middles around it. -/
theorem Centered.isNearest
    {x : Float} {target : ℚ}
    (centered : Centered (rank x) target)
    (number : x.isNaN = false) :
    IsNearest x target := by
  obtain ⟨lower, upper, inside⟩ := centered
  rw [← value_eq_level] at lower upper inside
  have below {y : Float} (less : rank y < rank x) :
      value y < value x ∧ value y ≤ level (rank x - 1) := by
    refine ⟨(value_lt_value_iff y x).mpr less, ?_⟩
    rw [value_eq_level]
    exact level_strictMono.monotone (by omega)
  have above {y : Float} (greater : rank x < rank y) :
      -value y < -value x ∧ level (rank x + 1) ≤ value y := by
    refine ⟨neg_lt_neg ((value_lt_value_iff x y).mpr greater), ?_⟩
    rw [value_eq_level]
    exact level_strictMono.monotone greater
  have mirrored (y : Float) : |value y - target| = |-value y - -target| := by
    rw [← neg_sub', abs_neg]
  refine ⟨number, fun y otherNumber => ?_, fun y otherNumber different asNear => ?_⟩
  · have bounds := rank_le_infinity otherNumber
    rcases lt_trichotomy (rank y) (rank x) with less | same | greater
    · have middle := lower (by omega)
      exact abs_sub_le_of_middle_le (below less).1 (by linarith [(below less).2])
    · rw [(value_eq_value_iff y x).mpr same]
    · have middle := upper (by omega)
      rw [mirrored x, mirrored y]
      exact abs_sub_le_of_middle_le (above greater).1 (by linarith [(above greater).2])
  · -- An odd code leaves its middles to its neighbours, so no other number is as near.
    by_contra odd
    rw [← natAbs_rank] at odd
    obtain ⟨lower, upper⟩ := inside (by omega)
    rw [Ne, value_eq_value_iff] at different
    rcases lt_or_gt_of_ne different with less | greater
    · have farther : |value x - target| < |value y - target| :=
        abs_sub_lt_of_middle_lt (below less).1 (by linarith [(below less).2])
      exact farther.ne asNear.symm
    · rw [mirrored x, mirrored y] at asNear
      have farther : |-value x - -target| < |-value y - -target| :=
        abs_sub_lt_of_middle_lt (above greater).1 (by linarith [(above greater).2])
      exact farther.ne asNear.symm

/-- Numbers nearest to the same rational have the same rank. -/
theorem IsNearest.rank_eq
    {x y : Float} {target : ℚ}
    (nearest : IsNearest x target)
    (otherNearest : IsNearest y target) :
    rank x = rank y := by
  by_contra different
  wlog less : rank x < rank y generalizing x y
  · exact this otherNearest nearest (Ne.symm different)
      (lt_of_le_of_ne (not_lt.mp less) (Ne.symm different))
  have values : value x < value y := (value_lt_value_iff x y).mpr less
  have asNear : |value y - target| = |value x - target| :=
    le_antisymm (otherNearest.least x nearest.number) (nearest.least y otherNearest.number)
  have middle : value y - target = target - value x := by
    rcases abs_eq_abs.mp asNear with same | opposite
    · linarith
    · linarith
  have even := nearest.even y otherNearest.number values.ne' asNear
  have otherEven := otherNearest.even x nearest.number values.ne asNear.symm
  -- Both ranks are even, so a number between them is nearer than either.
  have between : rank x + 1 < rank y := by
    rw [← natAbs_rank] at even otherEven
    omega
  have bounds := rank_le_infinity nearest.number
  have otherBounds := rank_le_infinity otherNearest.number
  have least : -(infinity : ℤ) ≤ rank x + 1 := by
    omega
  obtain ⟨z, isNumber, rank_z⟩ := exists_rank least (by omega)
  have above : value x < value z := (value_lt_value_iff x z).mpr (by omega)
  have below : value z < value y := (value_lt_value_iff z y).mpr (by omega)
  have nearer : |value z - target| < |value y - target| := by
    rw [middle, abs_of_pos (by linarith : 0 < target - value x), abs_lt]
    constructor <;> linarith
  exact absurd (otherNearest.least z isNumber) (not_le.mpr nearer)

/-- A number is nearest to what a number of its rank is nearest to. -/
theorem IsNearest.of_rank_eq
    {x y : Float} {target : ℚ}
    (nearest : IsNearest y target)
    (number : x.isNaN = false)
    (same : rank x = rank y) :
    IsNearest x target := by
  have values : value x = value y := (value_eq_value_iff x y).mpr same
  have codes : code x = code y := by
    rw [← natAbs_rank, same, natAbs_rank]
  obtain ⟨-, least, even⟩ := nearest
  rw [← values] at least even
  rw [← codes] at even
  exact ⟨number, least, even⟩

/-- A number is equal to one nearest to a rational exactly if it is nearest to it itself. -/
theorem IsNearest.beq_iff
    {x y : Float} {target : ℚ}
    (nearest : IsNearest y target)
    (number : x.isNaN = false) :
    (x == y) = true ↔ IsNearest x target := by
  rw [beq_iff_rank_eq number nearest.number]
  exact ⟨nearest.of_rank_eq number, fun isNearest => isNearest.rank_eq nearest⟩

theorem magnitude_add (first second : Nat) :
    magnitude first + magnitude second = (units first + units second : Nat) / (2 ^ 1074 : Nat) := by
  rw [magnitude, magnitude, ← add_div, Nat.cast_add]

theorem magnitude_add_le_iff
    {first second numerator denominator : Nat}
    (positive : 0 < denominator) :
    magnitude first + magnitude second ≤ 2 * (numerator / (denominator * 2 ^ 1074 : Nat)) ↔
      (units first + units second) * denominator ≤ 2 * numerator := by
  have scale : 0 < 2 ^ 1074 := Nat.two_pow_pos 1074
  rw [magnitude_add]
  generalize 2 ^ 1074 = unit at scale ⊢
  rw [← mul_div_assoc, div_le_div_iff₀ (Nat.cast_pos.mpr scale)
    (Nat.cast_pos.mpr (Nat.mul_pos positive scale))]
  norm_cast
  rw [← Nat.mul_assoc, Nat.mul_le_mul_right_iff scale]

theorem le_magnitude_add_iff
    {first second numerator denominator : Nat}
    (positive : 0 < denominator) :
    2 * (numerator / (denominator * 2 ^ 1074 : Nat)) ≤ magnitude first + magnitude second ↔
      2 * numerator ≤ (units first + units second) * denominator := by
  have scale : 0 < 2 ^ 1074 := Nat.two_pow_pos 1074
  rw [magnitude_add]
  generalize 2 ^ 1074 = unit at scale ⊢
  rw [← mul_div_assoc, div_le_div_iff₀ (Nat.cast_pos.mpr (Nat.mul_pos positive scale))
    (Nat.cast_pos.mpr scale)]
  norm_cast
  rw [← Nat.mul_assoc, Nat.mul_le_mul_right_iff scale]

theorem level_pred_le (code : Nat) :
    level ((code : ℤ) - 1) ≤ magnitude (code - 1) := by
  cases code with
  | zero =>
      have previous : level (-1) < level 0 := level_strictMono (by decide)
      exact previous.le
  | succ code =>
      have previous : ((code + 1 : Nat) : ℤ) - 1 = (code : Nat) := by
        omega
      rw [previous, level_natCast, Nat.add_sub_cancel]

/-- A quotient of units lies between the middles around the code that it is rounded to. -/
theorem centered_nearestCode
    (numerator : Nat) {denominator : Nat}
    (positive : 0 < denominator) :
    Centered (nearestCode numerator denominator) (numerator / (denominator * 2 ^ 1074 : Nat)) := by
  obtain ⟨code, rounds, nearest⟩ := exists_rounds numerator positive
  rw [nearest]
  have previous := level_pred_le (min code infinity)
  have atMost : min code infinity ≤ code := Nat.min_le_left _ _
  have lower :
      (units (min code infinity - 1) + units (min code infinity)) * denominator ≤ 2 * numerator :=
    (Nat.mul_le_mul_right _ (Nat.add_le_add (units_strictMono.monotone (by omega))
      (units_strictMono.monotone atMost))).trans rounds.lower
  have upper := rounds.upper
  have inside := rounds.inside
  rw [← magnitude_add_le_iff positive] at lower
  rw [← le_magnitude_add_iff positive] at upper
  rw [← not_le, ← not_le, ← le_magnitude_add_iff positive, ← magnitude_add_le_iff positive,
    not_le, not_le] at inside
  generalize (numerator / (denominator * 2 ^ 1074 : Nat) : ℚ) = target at *
  have next (code : Nat) : level ((code : ℤ) + 1) = magnitude (code + 1) :=
    level_natCast (code + 1)
  constructor
  · intro
    rw [level_natCast]
    linarith
  · intro finite
    have same : min code infinity = code := by
      omega
    rw [same, level_natCast, next]
    exact upper
  · intro odd
    have even : infinity % 2 = 0 := rfl
    have same : min code infinity = code := by
      omega
    rw [same] at odd previous ⊢
    rw [level_natCast, next]
    obtain ⟨lower, upper⟩ := inside (by omega)
    exact ⟨by linarith, upper⟩

/-- A quotient of units is rounded to the number nearest to it. -/
theorem isNearest_nearestCode
    (numerator : Nat) {denominator : Nat}
    (positive : 0 < denominator)
    (negative : Bool) :
    IsNearest (ofCode negative (nearestCode numerator denominator))
      ((if negative then -1 else 1) * (numerator / (denominator * 2 ^ 1074 : Nat))) := by
  have bound : nearestCode numerator denominator ≤ infinity := Nat.min_le_right _ _
  have centered := centered_nearestCode numerator positive
  refine Centered.isNearest ?_ (isNaN_ofCode negative bound)
  rw [rank_ofCode negative bound]
  cases negative with
  | false =>
      rw [if_neg Bool.false_ne_true, if_neg Bool.false_ne_true, one_mul]
      exact centered
  | true =>
      rw [if_pos rfl, if_pos rfl, neg_one_mul]
      exact centered.neg

/-- A whole number is read as the number nearest to it. -/
theorem isNearest_ofNat (n : Nat) :
    IsNearest (ofNat n) n := by
  have nearest := isNearest_nearestCode (n * 2 ^ 1074) Nat.one_pos false
  have target {unit : Nat} (scale : 0 < unit) :
      ((n * unit : Nat) / (1 * unit : Nat) : ℚ) = n := by
    rw [Nat.one_mul, Nat.cast_mul]
    exact mul_div_cancel_right₀ _ (Nat.cast_ne_zero.mpr (Nat.ne_of_gt scale))
  rwa [if_neg Bool.false_ne_true, one_mul, target (Nat.two_pow_pos 1074)] at nearest

end Bhasha.Binary64

namespace Bhasha.Decimal

open Binary64

/-- The value of a decimal as a quotient of units. -/
theorem value_eq_units (decimal : Decimal) :
    decimal.value =
      (decimal.digits * 10 ^ decimal.exponent.toNat * 2 ^ 1074 : Nat) /
        (10 ^ (-decimal.exponent).toNat * 2 ^ 1074 : Nat) := by
  have scale : ((2 ^ 1074 : Nat) : ℚ) ≠ 0 :=
    Nat.cast_ne_zero.mpr (Nat.ne_of_gt (Nat.two_pow_pos 1074))
  generalize 2 ^ 1074 = unit at scale ⊢
  rw [Nat.cast_mul _ unit, Nat.cast_mul _ unit, mul_div_mul_right _ _ scale, ← value_eq]

/-- A decimal is read as the number nearest to it. -/
theorem isNearest_toFloat
    (decimal : Decimal)
    (negative : Bool) :
    IsNearest (decimal.toFloat negative) ((if negative then -1 else 1) * decimal.value) := by
  have divided : 0 < 10 ^ (-decimal.exponent).toNat := Nat.pow_pos (by decide)
  have nearest :=
    isNearest_nearestCode (decimal.digits * 10 ^ decimal.exponent.toNat * 2 ^ 1074) divided
      negative
  rw [← nearestCode_eq, ← value_eq_units] at nearest
  exact nearest

end Bhasha.Decimal
