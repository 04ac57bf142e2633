import Bhasha.Proofs.Number.Decimal

namespace Bhasha.Decimal

/-!
# The shortest decimal is read back

The search keeps an interval on the grid of its exponent: `Interval.OnGrid` says
that the interval holds the middles around the code, at a scale that fits the
step of the grid.  A point that is found in such an interval is a decimal that
rounds to the code, and on the finest grid there is always a point, so the search
does not end without one.
-/

open Binary64

namespace Interval

/-- An interval holds the middles around a code, on the grid of a power of ten. -/
structure OnGrid
    (code : Nat)
    (exponent : Int)
    (scale : Nat)
    (interval : Interval) : Prop where
  positive : 0 < scale
  value : interval.value = 2 * units code * scale
  lower : interval.lower = (units (code - 1) + units code) * scale
  upper : interval.upper = (units code + units (code + 1)) * scale
  step :
    interval.step * 10 ^ (-exponent).toNat = 2 * (10 ^ exponent.toNat * 2 ^ 1074) * scale
  closed : interval.closed = decide (code % 2 = 0)

/-- The interval of a code lies on the grid it was made for. -/
theorem ofCode_onGrid (code : Nat) (exponent : Int) :
    OnGrid code exponent (10 ^ (-exponent).toNat) (ofCode code exponent) where
  positive := Nat.pow_pos (by decide)
  value := rfl
  lower := rfl
  upper := rfl
  step := by
    dsimp only [ofCode]
    -- The powers must stay closed: their values are beyond the limit of the evaluator.
    generalize unit : 1074 = places
    generalize half : 1075 = morePlaces
    obtain rfl : morePlaces = places + 1 := by
      omega
    have doubled : 2 ^ (places + 1) = 2 * 2 ^ places := Nat.pow_succ'
    rw [doubled]
    ac_rfl
  closed := rfl

/-- An interval that is refined lies on the grid of the next power of ten. -/
theorem OnGrid.refine
    {code scale : Nat} {exponent : Int} {interval : Interval}
    (onGrid : OnGrid code exponent scale interval) :
    OnGrid code (exponent - 1) (10 * scale) interval.refine where
  positive := Nat.mul_pos (by decide) onGrid.positive
  value := by
    rw [Interval.refine, onGrid.value, Nat.mul_left_comm]
  lower := by
    rw [Interval.refine, onGrid.lower, Nat.mul_left_comm]
  upper := by
    rw [Interval.refine, onGrid.upper, Nat.mul_left_comm]
  step := by
    have step := onGrid.step
    rw [Interval.refine]
    rcases le_or_gt exponent 0 with down | up
    · have finer : (-(exponent - 1)).toNat = (-exponent).toNat + 1 := by
        omega
      have flat : exponent.toNat = 0 := by
        omega
      have stillFlat : (exponent - 1).toNat = 0 := by
        omega
      rw [flat] at step
      generalize 2 ^ 1074 = unit at step ⊢
      rw [finer, stillFlat, Nat.pow_succ, ← Nat.mul_assoc, step]
      ac_rfl
    · have coarser : exponent.toNat = (exponent - 1).toNat + 1 := by
        omega
      have flat : (-exponent).toNat = 0 := by
        omega
      have stillFlat : (-(exponent - 1)).toNat = 0 := by
        omega
      rw [flat, coarser, Nat.pow_succ] at step
      generalize 2 ^ 1074 = unit at step ⊢
      rw [stillFlat, step]
      ac_rfl
  closed := onGrid.closed

/-- A place on a grid is at least an amount when the quotient it stands for is. -/
theorem le_place_iff
    {amount place scale numerator denominator : Nat}
    (same : place * denominator = numerator * scale)
    (scaled : 0 < scale)
    (divided : 0 < denominator) :
    amount * scale ≤ place ↔ amount * denominator ≤ numerator := by
  rw [← Nat.mul_le_mul_right_iff divided, same, Nat.mul_right_comm,
    Nat.mul_le_mul_right_iff scaled]

theorem place_le_iff
    {amount place scale numerator denominator : Nat}
    (same : place * denominator = numerator * scale)
    (scaled : 0 < scale)
    (divided : 0 < denominator) :
    place ≤ amount * scale ↔ numerator ≤ amount * denominator := by
  rw [← Nat.mul_le_mul_right_iff divided, same, Nat.mul_right_comm amount,
    Nat.mul_le_mul_right_iff scaled]

/-- The points of an interval on a grid are the decimals there that round to the code. -/
theorem OnGrid.contains_iff
    {code scale point : Nat} {exponent : Int} {interval : Interval}
    (onGrid : OnGrid code exponent scale interval) :
    interval.contains point = true ↔ RoundsTo ⟨point, exponent⟩ code := by
  have same :
      point * interval.step * 10 ^ (-exponent).toNat =
        2 * (point * 10 ^ exponent.toNat * 2 ^ 1074) * scale := by
    rw [Nat.mul_assoc, onGrid.step]
    generalize 2 ^ 1074 = unit
    ac_rfl
  have divided : 0 < 10 ^ (-exponent).toNat := Nat.pow_pos (by decide)
  have scaled := onGrid.positive
  dsimp only [contains]
  rw [onGrid.closed, onGrid.lower, onGrid.upper]
  by_cases even : code % 2 = 0
  · simp only [even, decide_true, if_true, Bool.and_eq_true, decide_eq_true_eq]
    rw [le_place_iff same scaled divided, place_le_iff same scaled divided]
    exact ⟨fun inside => ⟨inside.1, inside.2, by omega⟩, fun rounds => ⟨rounds.lower, rounds.upper⟩⟩
  · simp only [even, decide_false, Bool.false_eq_true, if_false, Bool.and_eq_true,
      decide_eq_true_eq]
    rw [← Nat.not_le, ← Nat.not_le, le_place_iff same scaled divided,
      place_le_iff same scaled divided, Nat.not_le, Nat.not_le]
    exact ⟨fun inside => ⟨Nat.le_of_lt inside.1, Nat.le_of_lt inside.2, fun _ => inside⟩,
      fun rounds => rounds.inside (by omega)⟩

/-- A grid point that is picked lies in the interval. -/
theorem contains_of_pick?
    {tie : Tie} {interval : Interval} {point : Nat}
    (picked : interval.pick? tie = some point) :
    interval.contains point = true := by
  have nearest :
      interval.nearest tie = interval.value / interval.step ∨
        interval.nearest tie = interval.value / interval.step + 1 := by
    dsimp only [nearest]
    split
    · exact .inl rfl
    split
    · exact .inr rfl
    cases tie with
    | upper =>
        exact .inr rfl
    | even =>
        simp only [Tie.pick]
        omega
  dsimp only [pick?] at picked
  split at picked
  case h_1 below above =>
    cases picked
    rcases nearest with isBelow | isAbove
    · rw [isBelow]
      exact below
    · rw [isAbove]
      exact above
  case h_2 below above =>
    cases picked
    exact below
  case h_3 below above =>
    cases picked
    exact above
  case h_4 below above =>
    cases picked

/-- A step that is the scale times a quotient up to one is positive and at most the scale. -/
theorem step_bounds
    {step scale numerator denominator : Nat}
    (same : step * denominator = numerator * scale)
    (scaled : 0 < scale)
    (positive : 0 < numerator)
    (le : numerator ≤ denominator) :
    0 < step ∧ step ≤ scale := by
  constructor
  · have product : 0 < step * denominator := by
      rw [same]
      exact Nat.mul_pos positive scaled
    exact Nat.pos_of_mul_pos_right product
  · have bound : step * denominator ≤ scale * denominator := by
      rw [same, Nat.mul_comm]
      exact Nat.mul_le_mul_left scale le
    exact Nat.le_of_mul_le_mul_right bound (Nat.lt_of_lt_of_le positive le)

/-- The value lies inside the interval, at least a scale above its lower end. -/
theorem OnGrid.value_inside
    {code scale : Nat} {exponent : Int} {interval : Interval}
    (onGrid : OnGrid code exponent scale interval)
    (positive : 0 < code) :
    interval.lower + scale ≤ interval.value ∧ interval.value < interval.upper := by
  constructor
  · rw [onGrid.lower, onGrid.value, ← Nat.succ_mul]
    have previous : units (code - 1) < units code := units_strictMono (by omega)
    exact Nat.mul_le_mul_right scale (by omega)
  · rw [onGrid.upper, onGrid.value]
    have next : units code < units (code + 1) := units_strictMono (Nat.lt_succ_self code)
    exact Nat.mul_lt_mul_of_pos_right (by omega) onGrid.positive

/-- On the finest grid the interval of a code has a point. -/
theorem OnGrid.exists_pick?
    {code scale : Nat} {interval : Interval}
    (positive : 0 < code)
    (onGrid : OnGrid code (-324) scale interval)
    (tie : Tie) :
    ∃ point, interval.pick? tie = some point := by
  obtain ⟨some, fine⟩ :=
    step_bounds onGrid.step onGrid.positive (by decide +kernel) (by decide +kernel)
  obtain ⟨lower, upper⟩ := onGrid.value_inside positive
  -- The step is at most the distance to the lower end, so the point below the value is inside.
  have below : interval.contains (interval.value / interval.step) = true := by
    have place := Nat.div_mul_le_self interval.value interval.step
    have rest := Nat.lt_div_mul_add some (a := interval.value)
    dsimp only [contains]
    cases interval.closed with
    | true =>
        simp only [if_true, Bool.and_eq_true, decide_eq_true_eq]
        omega
    | false =>
        simp only [Bool.false_eq_true, if_false, Bool.and_eq_true, decide_eq_true_eq]
        omega
  dsimp only [pick?]
  rw [below]
  cases interval.contains (interval.value / interval.step + 1) with
  | true =>
      exact ⟨_, rfl⟩
  | false =>
      exact ⟨_, rfl⟩

/-- The search finds a decimal that rounds to the code, on the finest grid at the latest. -/
theorem search_roundsTo
    {code : Nat}
    (positive : 0 < code)
    (tie : Tie)
    (grids : Nat) :
    ∀ {exponent : Int} {scale : Nat} {interval : Interval},
      exponent = (grids : Int) - 324 →
      OnGrid code exponent scale interval →
        (search tie (grids + 1) exponent interval).RoundsTo code := by
  induction grids with
  | zero =>
      rintro exponent scale interval rfl onGrid
      obtain ⟨point, picked⟩ := OnGrid.exists_pick? positive onGrid tie
      rw [search, picked]
      exact onGrid.contains_iff.mp (contains_of_pick? picked)
  | succ grids inductionHypothesis =>
      rintro exponent scale interval rfl onGrid
      rw [search]
      cases picked : interval.pick? tie with
      | some point =>
          exact onGrid.contains_iff.mp (contains_of_pick? picked)
      | none =>
          exact inductionHypothesis (by omega) onGrid.refine

end Interval

theorem le_coarsestExponent (code : Nat) :
    -324 ≤ coarsestExponent code := by
  dsimp only [coarsestExponent]
  split <;> omega

/-- The shortest decimal of a code rounds to it. -/
theorem shortest_roundsTo
    {code : Nat}
    (positive : 0 < code)
    (tie : Tie) :
    (shortest tie code).RoundsTo code := by
  have start := le_coarsestExponent code
  obtain ⟨grids, count⟩ : ∃ grids, (coarsestExponent code + 325).toNat = grids + 1 :=
    ⟨(coarsestExponent code + 324).toNat, by omega⟩
  dsimp only [shortest]
  rw [count]
  exact Interval.search_roundsTo positive tie grids (by omega) (Interval.ofCode_onGrid _ _)

end Bhasha.Decimal
