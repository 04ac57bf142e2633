import Bhasha.Proofs.Number.Nearest
import Bhasha.Proofs.Number.Shortest
import Bhasha.Proofs.Number.Written

namespace Bhasha.Decimal

/-!
# No decimal that is read back has fewer digits

The decimals that round to a code are those of an interval.  The search starts on
a grid that is too coarse for all of them and refines it as long as the interval
has no point there, so none of these decimals lies on a coarser grid than the one
that is found.  Hence the digits found have no zero at their end, and a decimal
with fewer digits would leave a power of ten, which is coarser, in the interval.
-/

open Binary64

/-- Decimals between two that round to a code round to it as well. -/
theorem RoundsTo.between
    {lower decimal upper : Decimal} {code : Nat}
    (lowerRounds : lower.RoundsTo code)
    (upperRounds : upper.RoundsTo code)
    (above : lower.value ≤ decimal.value)
    (below : decimal.value ≤ upper.value) :
    decimal.RoundsTo code := by
  obtain ⟨itsCode, rounds, -⟩ := decimal.exists_roundsTo
  have atLeast : code ≤ itsCode := lowerRounds.code_le rounds above
  have atMost : itsCode ≤ code := rounds.code_le upperRounds below
  rwa [Nat.le_antisymm atMost atLeast] at rounds

/-- A decimal that rounds to a code is below the middle above it. -/
theorem RoundsTo.two_mul_value_le
    {decimal : Decimal} {code : Nat}
    (rounds : decimal.RoundsTo code) :
    2 * decimal.value ≤ magnitude code + magnitude (code + 1) := by
  have divided : 0 < 10 ^ (-decimal.exponent).toNat := Nat.pow_pos (by decide)
  rw [value_eq_units, le_magnitude_add_iff divided]
  exact rounds.upper

/-- The magnitude of the next code is at most twice as large. -/
theorem magnitude_succ_le
    {code : Nat}
    (some : 0 < code) :
    magnitude (code + 1) ≤ 2 * magnitude code := by
  have doubled : units (code + 1) ≤ 2 * units code := by
    obtain ⟨shift, significand, rfl, below, normal⟩ := exists_shifted code
    rw [units_shifted_succ below normal, units_shifted below normal, ← Nat.mul_assoc]
    exact Nat.mul_le_mul_right _ (by omega)
  have scale : (0 : ℚ) ≤ (2 ^ 1074 : Nat) := Nat.cast_nonneg _
  rw [magnitude, magnitude, ← mul_div_assoc]
  exact div_le_div_of_nonneg_right (mod_cast doubled) scale

/-- Twice a quotient by a power of two is below the power after its leading digit. -/
theorem two_mul_div_lt (amount unit : Nat) :
    2 * ((amount : ℚ) / (2 ^ unit : Nat)) < 2 ^ ((amount.log2 : ℤ) + 2 - unit) := by
  have two : (2 : ℚ) ≠ 0 := by
    decide
  have scale : (0 : ℚ) < 2 ^ unit := pow_pos (by decide) _
  have below : (amount : ℚ) < 2 ^ (amount.log2 + 1) := by
    exact_mod_cast Nat.lt_log2_self
  rw [Nat.cast_pow, Nat.cast_ofNat, ← mul_div_assoc, zpow_sub₀ two, zpow_natCast,
    div_lt_div_iff_of_pos_right scale]
  generalize amount.log2 = places at below ⊢
  calc 2 * (amount : ℚ)
      < 2 * 2 ^ (places + 1) := mul_lt_mul_of_pos_left below (by decide)
    _ = 2 ^ (places + 2) := (pow_succ' 2 (places + 1)).symm
    _ = 2 ^ ((places : ℤ) + 2) := (zpow_natCast 2 (places + 2)).symm

/-- Powers are ordered as their roots are. -/
theorem zpow_le_zpow_of_mul
    {base other : ℚ} {power otherPower : ℤ}
    (root : Nat)
    (some : root ≠ 0)
    (positive : 0 ≤ base)
    (otherPositive : 0 ≤ other)
    (le : base ^ (power * root) ≤ other ^ (otherPower * root)) :
    base ^ power ≤ other ^ otherPower := by
  rw [zpow_mul, zpow_mul, zpow_natCast, zpow_natCast] at le
  exact (pow_le_pow_iff_left₀ (zpow_nonneg positive _) (zpow_nonneg otherPositive _) some).mp le

/-- Thirteen binary places fit into four decimal ones. -/
theorem two_zpow_le_of_nonneg
    {binary decimal : ℤ}
    (positive : 0 ≤ binary)
    (fits : binary * 4 ≤ decimal * 13) :
    (2 : ℚ) ^ binary ≤ 10 ^ decimal := by
  refine zpow_le_zpow_of_mul 13 (by decide) (by decide) (by decide) ?_
  calc (2 : ℚ) ^ (binary * (13 : Nat))
      = (2 ^ 13) ^ binary := by
        rw [mul_comm, zpow_mul, zpow_natCast]
    _ ≤ (10 ^ 4) ^ binary := zpow_le_zpow_left₀ positive (by norm_num) (by norm_num)
    _ = 10 ^ (binary * 4) := by
        rw [mul_comm, zpow_mul]
        rfl
    _ ≤ 10 ^ (decimal * (13 : Nat)) := zpow_le_zpow_right₀ (by decide) fits

/-- Ten binary places fill three decimal ones. -/
theorem two_zpow_le_of_neg
    {binary decimal : ℤ}
    (negative : binary < 0)
    (fits : binary * 3 ≤ decimal * 10) :
    (2 : ℚ) ^ binary ≤ 10 ^ decimal := by
  refine zpow_le_zpow_of_mul 10 (by decide) (by decide) (by decide) ?_
  obtain ⟨places, rfl⟩ : ∃ places : Nat, binary = -places := ⟨binary.natAbs, by omega⟩
  calc (2 : ℚ) ^ (-(places : ℤ) * (10 : Nat))
      = ((2 ^ 10) ^ places)⁻¹ := by
        rw [neg_mul, zpow_neg, mul_comm, zpow_mul, zpow_natCast, zpow_natCast]
    _ ≤ ((10 ^ 3) ^ places)⁻¹ :=
        inv_anti₀ (by positivity) (pow_le_pow_left₀ (by norm_num) (by norm_num) _)
    _ = 10 ^ (-(places : ℤ) * 3) := by
        rw [neg_mul, zpow_neg, mul_comm, zpow_mul, zpow_natCast]
        rfl
    _ ≤ 10 ^ (decimal * (10 : Nat)) := zpow_le_zpow_right₀ (by decide) fits

/-- The coarsest grid has a step above twice the magnitude of the code. -/
theorem two_mul_magnitude_lt_coarsest (code : Nat) :
    2 * magnitude code < 10 ^ coarsestExponent code := by
  refine (two_mul_div_lt (units code) 1074).trans_le ?_
  unfold coarsestExponent
  dsimp only
  split
  case isTrue positive =>
    exact two_zpow_le_of_nonneg positive (by omega)
  case isFalse negative =>
    exact two_zpow_le_of_neg (by omega) (by omega)

/-- No decimal of a grid as coarse as the first one rounds to the code. -/
theorem RoundsTo.exponent_lt_coarsest
    {decimal : Decimal} {code : Nat}
    (rounds : decimal.RoundsTo code)
    (some : 0 < code) :
    decimal.exponent < coarsestExponent code := by
  have whole : (1 : ℚ) ≤ decimal.digits := Nat.one_le_cast.mpr (rounds.digits_pos some)
  have scale : (0 : ℚ) < 10 ^ decimal.exponent := zpow_pos (by decide) _
  have next := magnitude_succ_le some
  have start := two_mul_magnitude_lt_coarsest code
  have middle := rounds.two_mul_value_le
  have atLeast : (10 : ℚ) ^ decimal.exponent ≤ decimal.value :=
    le_mul_of_one_le_left scale.le whole
  have below : (10 : ℚ) ^ decimal.exponent < 10 ^ coarsestExponent code := by
    have positive : 0 ≤ magnitude code := by
      rw [← magnitude_zero]
      exact magnitude_strictMono.monotone (Nat.zero_le code)
    linarith
  exact (zpow_lt_zpow_iff_right₀ (by decide)).mp below

namespace Interval

/-- With a grid point an interval has all those between it and the value. -/
theorem OnGrid.contains_of_between
    {code scale point other : Nat} {exponent : Int} {interval : Interval}
    (onGrid : OnGrid code exponent scale interval)
    (positive : 0 < code)
    (contained : interval.contains point = true)
    (between :
      point * interval.step ≤ other * interval.step ∧ other * interval.step ≤ interval.value ∨
        interval.value ≤ other * interval.step ∧
          other * interval.step ≤ point * interval.step) :
    interval.contains other = true := by
  obtain ⟨lower, upper⟩ := onGrid.value_inside positive
  have scaled := onGrid.positive
  dsimp only [contains] at contained ⊢
  cases ends : interval.closed <;>
    simp only [ends, Bool.false_eq_true, if_false, if_true, Bool.and_eq_true, decide_eq_true_eq]
      at contained ⊢ <;>
    omega

theorem OnGrid.step_pos
    {code scale : Nat} {exponent : Int} {interval : Interval}
    (onGrid : OnGrid code exponent scale interval) :
    0 < interval.step := by
  have unit := Nat.two_pow_pos 1074
  have step := onGrid.step
  generalize 2 ^ 1074 = units at unit step
  have product : 0 < interval.step * 10 ^ (-exponent).toNat := by
    rw [step]
    have power : 0 < 10 ^ exponent.toNat := Nat.pow_pos (by decide)
    exact Nat.mul_pos (Nat.mul_pos (by decide) (Nat.mul_pos power unit)) onGrid.positive
  exact Nat.pos_of_mul_pos_right product

/-- An interval with any grid point has one beside the value, which is picked. -/
theorem OnGrid.exists_pick?_of_contains
    {code scale point : Nat} {exponent : Int} {interval : Interval}
    (onGrid : OnGrid code exponent scale interval)
    (positive : 0 < code)
    (contained : interval.contains point = true)
    (tie : Tie) :
    ∃ picked, interval.pick? tie = some picked := by
  have below := Nat.div_mul_le_self interval.value interval.step
  have above := Nat.lt_div_mul_add onGrid.step_pos (a := interval.value)
  have beside :
      interval.contains (interval.value / interval.step) = true ∨
        interval.contains (interval.value / interval.step + 1) = true := by
    rcases Nat.lt_or_ge (interval.value / interval.step) point with beyond | within
    · right
      have place := Nat.mul_le_mul_right interval.step (Nat.succ_le_of_lt beyond)
      refine onGrid.contains_of_between positive contained (.inr ⟨?_, place⟩)
      rw [Nat.succ_mul]
      exact above.le
    · left
      have place := Nat.mul_le_mul_right interval.step within
      exact onGrid.contains_of_between positive contained (.inl ⟨place, below⟩)
  dsimp only [pick?]
  split
  case h_1 | h_2 | h_3 =>
    exact ⟨_, rfl⟩
  case h_4 notBelow notAbove =>
    rw [notBelow, notAbove] at beside
    simp at beside

/-- The search ends on a grid that no decimal which rounds to the code is coarser than. -/
theorem exponent_le_search
    {code : Nat} {decimal : Decimal}
    (positive : 0 < code)
    (rounds : decimal.RoundsTo code)
    (tie : Tie)
    (grids : Nat) :
    ∀ {exponent : Int} {scale : Nat} {interval : Interval},
      OnGrid code exponent scale interval →
      decimal.exponent ≤ exponent →
        decimal.exponent ≤ (search tie grids exponent interval).exponent := by
  induction grids with
  | zero =>
      intro exponent scale interval onGrid coarse
      exact coarse
  | succ grids inductionHypothesis =>
      intro exponent scale interval onGrid coarse
      rw [search]
      cases picked : interval.pick? tie with
      | some point =>
          exact coarse
      | none =>
          -- A decimal on this very grid would be a point of the interval.
          have finer : decimal.exponent ≠ exponent := by
            rintro rfl
            obtain ⟨point, found⟩ :=
              onGrid.exists_pick?_of_contains positive (onGrid.contains_iff.mpr rounds) tie
            rw [picked] at found
            cases found
          exact inductionHypothesis onGrid.refine (by omega)

/-- The search goes through as many grids as it is allowed at most. -/
theorem le_exponent_search
    (tie : Tie)
    (grids : Nat)
    (exponent : Int)
    (interval : Interval) :
    exponent - grids ≤ (search tie grids exponent interval).exponent := by
  induction grids generalizing exponent interval with
  | zero =>
      rw [search]
      dsimp only
      omega
  | succ grids inductionHypothesis =>
      rw [search]
      split
      · dsimp only
        omega
      · have bound := inductionHypothesis (exponent - 1) interval.refine
        omega

end Interval

/-- No decimal that rounds to a code lies on a coarser grid than the shortest one. -/
theorem RoundsTo.exponent_le_shortest
    {decimal : Decimal} {code : Nat}
    (rounds : decimal.RoundsTo code)
    (some : 0 < code)
    (tie : Tie) :
    decimal.exponent ≤ (shortest tie code).exponent :=
  Interval.exponent_le_search some rounds tie _ (Interval.ofCode_onGrid code _)
    (rounds.exponent_lt_coarsest some).le

/-- The finest grid is that of `10 ^ -325` at most. -/
theorem le_exponent_shortest
    (tie : Tie)
    (code : Nat) :
    -325 ≤ (shortest tie code).exponent := by
  have start := le_coarsestExponent code
  have bound := Interval.le_exponent_search tie (coarsestExponent code + 325).toNat
    (coarsestExponent code) (Interval.ofCode code (coarsestExponent code))
  unfold shortest
  dsimp only
  omega

/-- The digits of the shortest decimal do not end with a zero. -/
theorem shortest_digits_mod_ten
    {code : Nat}
    (some : 0 < code)
    (tie : Tie) :
    (shortest tie code).digits % 10 ≠ 0 := by
  intro zero
  have rounds := shortest_roundsTo some tie
  generalize found : shortest tie code = decimal at zero rounds
  -- Without the zero the same decimal would lie on a coarser grid.
  have same : (⟨decimal.digits / 10, decimal.exponent + 1⟩ : Decimal).value = decimal.value := by
    have tenfold : (decimal.digits : ℚ) = (decimal.digits / 10 : Nat) * 10 := by
      exact_mod_cast (Nat.div_mul_cancel (Nat.dvd_of_mod_eq_zero zero)).symm
    rw [value, value, tenfold, zpow_add_one₀ (by decide)]
    ring
  have coarser : (⟨decimal.digits / 10, decimal.exponent + 1⟩ : Decimal).RoundsTo code :=
    rounds.between rounds same.ge same.le
  have bound := coarser.exponent_le_shortest some tie
  rw [found] at bound
  dsimp only at bound
  omega

/-- No decimal that rounds to a code has fewer digits than the shortest one. -/
theorem length_shortest_le
    {decimal : Decimal} {code : Nat}
    (rounds : decimal.RoundsTo code)
    (some : 0 < code)
    (tie : Tie) :
    (NumberStyle.decimalDigits (shortest tie code).digits).length ≤
      (NumberStyle.decimalDigits decimal.digits).length := by
  have shortestRounds := shortest_roundsTo some tie
  have exponents := rounds.exponent_le_shortest some tie
  have coarsest {other : Decimal} (otherRounds : other.RoundsTo code) :=
    otherRounds.exponent_le_shortest some tie
  generalize shortest tie code = found at shortestRounds exponents coarsest ⊢
  by_contra fewer
  have digits := shortestRounds.digits_pos some
  have otherDigits := rounds.digits_pos some
  have count : 0 < (NumberStyle.decimalDigits decimal.digits).length := Nat.length_toDigits_pos
  have points : NumberStyle.pointOf decimal < NumberStyle.pointOf found := by
    unfold NumberStyle.pointOf
    omega
  -- The power of ten at the first digit of the shortest decimal lies between both.
  have power : (⟨1, NumberStyle.pointOf found - 1⟩ : Decimal).value =
      (10 : ℚ) ^ (NumberStyle.pointOf found - 1) := by
    rw [value, Nat.cast_one, one_mul]
  have below :
      (⟨1, NumberStyle.pointOf found - 1⟩ : Decimal).value ≤ found.value := by
    rw [power, NumberStyle.zpow_le_value_iff digits]
    omega
  have above :
      decimal.value ≤ (⟨1, NumberStyle.pointOf found - 1⟩ : Decimal).value := by
    rw [power]
    by_contra beyond
    have place := (NumberStyle.zpow_le_value_iff otherDigits _).mp (not_le.mp beyond).le
    omega
  have coarse := coarsest (rounds.between shortestRounds above below)
  unfold NumberStyle.pointOf at coarse
  dsimp only at coarse
  omega

/-- A decimal that is read as a finite number rounds to its code. -/
theorem roundsTo_of_toFloat
    {decimal : Decimal} {negative : Bool} {x : Float}
    (finite : code x < infinity)
    (read : decimal.toFloat negative = x) :
    decimal.RoundsTo (code x) := by
  obtain ⟨itsCode, rounds, nearest⟩ := decimal.exists_roundsTo
  have bound : decimal.nearestCode ≤ infinity := by
    omega
  have same : code x = decimal.nearestCode := by
    rw [← read, toFloat, code_ofCode _ bound]
  obtain rfl : itsCode = code x := by
    omega
  exact rounds

end Bhasha.Decimal
