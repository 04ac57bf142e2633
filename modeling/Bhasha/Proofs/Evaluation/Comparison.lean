import Bhasha.Proofs.Evaluation.Numeric
import Bhasha.Proofs.Number.Order
import Bhasha.Proofs.Text.Encoding

namespace Bhasha

/-!
# Comparisons agree with each other

Equality is decided for all values, and the order of two values if both are numbers or
both are texts; otherwise the four ordering operators refuse them alike.  Where the
order is decided it fits the equality of the values, although both are computed apart:
numbers are compared by their ranks, which both zeros share, and texts by their code
points.  NaN stands in no relation to any number.
-/

/-- Exactly one of three statements is true. -/
def ExactlyOne (first second third : Prop) : Prop :=
  (first ∧ ¬ second ∧ ¬ third) ∨ (¬ first ∧ second ∧ ¬ third) ∨ (¬ first ∧ ¬ second ∧ third)

/-- Of two members of a linear order one is smaller, or they are equal. -/
theorem exactlyOne_of_linearOrder
    {α : Type} [LinearOrder α]
    (first second : α) :
    ExactlyOne (first < second) (first = second) (second < first) := by
  rcases lt_trichotomy first second with less | equal | greater
  · exact .inl ⟨less, less.ne, less.not_gt⟩
  · exact .inr (.inl ⟨equal.not_lt, equal, equal.not_gt⟩)
  · exact .inr (.inr ⟨greater.not_gt, greater.ne', greater⟩)

namespace Value

/-- A comparison of two values is true. -/
def Holds (operator : BinaryOperator) (left right : Value) : Prop :=
  operator.apply left right = .ok (.boolean true)

/-- A comparison of two values is false. -/
def Fails (operator : BinaryOperator) (left right : Value) : Prop :=
  operator.apply left right = .ok (.boolean false)

/-- Two numbers, or two texts. -/
inductive Comparable : Value → Value → Prop where
  | numbers (a b : Float) : Comparable (.number a) (.number b)
  | strings (s t : String) : Comparable (.string s) (.string t)

/-- The value is the number that stands for none. -/
def IsNaN : Value → Prop
  | number x => x.isNaN = true
  | string _ | boolean _ => False

/--
The order of two values is decided and agrees with their equality.

The texts of `codePoints` and `utf8Bytes` are lists of numbers, of which the first
one that differs decides.
-/
structure Ordered (a b : Value) : Prop where
  decided : ∀ operator : BinaryOperator, operator.isOrdering = true →
    Holds operator a b ∨ Fails operator a b
  greater : BinaryOperator.greater.apply a b = BinaryOperator.less.apply b a
  greaterOrEqual : BinaryOperator.greaterOrEqual.apply a b = BinaryOperator.lessOrEqual.apply b a
  lessOrEqual : Holds .lessOrEqual a b ↔ Holds .less a b ∨ Holds .equal a b
  exactlyOne : ¬ a.IsNaN → ¬ b.IsNaN →
    ExactlyOne (Holds .less a b) (Holds .equal a b) (Holds .greater a b)
  unordered : a.IsNaN ∨ b.IsNaN → ∀ operator : BinaryOperator,
    operator.isOrdering = true ∨ operator = .equal → Fails operator a b
  transitive : ∀ c, Holds .less a b → Holds .less b c → Holds .less a c
  byCodePoint : ∀ s t, a = .string s → b = .string t →
    (Holds .less a b ↔ Text.codePoints s < Text.codePoints t) ∧
      (Holds .less a b ↔ Text.utf8Bytes s < Text.utf8Bytes t)

/-- What an operator gives of two values, as the truth of a statement. -/
theorem holds_iff
    {operator : BinaryOperator} {a b : Value} {statement : Prop} [Decidable statement]
    (applied : operator.apply a b = .ok (.boolean statement)) :
    Holds operator a b ↔ statement := by
  rw [Holds, applied]
  simp

theorem fails_iff
    {operator : BinaryOperator} {a b : Value} {statement : Prop} [Decidable statement]
    (applied : operator.apply a b = .ok (.boolean statement)) :
    Fails operator a b ↔ ¬ statement := by
  rw [Fails, applied]
  simp

theorem holds_or_fails
    {operator : BinaryOperator} {a b : Value} {truth : Bool}
    (applied : operator.apply a b = .ok (.boolean truth)) :
    Holds operator a b ∨ Fails operator a b := by
  cases truth with
  | true => exact .inl applied
  | false => exact .inr applied

/-- The ordering operators refuse all other values, with one and the same fault. -/
theorem apply_of_not_comparable
    {operator : BinaryOperator} {a b : Value}
    (ordering : operator.isOrdering = true)
    (apart : ¬ Comparable a b) :
    operator.apply a b = .error (.notComparable a.type b.type) := by
  have refused (numbers : Float → Float → Bool) (texts : String → String → Bool) :
      compare numbers texts a b = .error (.notComparable a.type b.type) := by
    unfold compare
    split
    · exact absurd (.numbers _ _) apart
    · exact absurd (.strings _ _) apart
    · rfl
  cases operator with
  | greater | less | greaterOrEqual | lessOrEqual =>
      exact refused _ _
  | equal | notEqual | add | subtract | multiply | divide | modulo =>
      cases ordering

/-- Only comparable values have an order. -/
theorem comparable_of_holds
    {operator : BinaryOperator} {a b : Value}
    (ordering : operator.isOrdering = true)
    (holds : Holds operator a b) :
    Comparable a b := by
  by_contra apart
  rw [Holds, apply_of_not_comparable ordering apart] at holds
  cases holds

/-- Equality does not depend on the order of the values. -/
theorem looselyEqual_comm (a b : Value) :
    a.looselyEqual b = b.looselyEqual a := by
  cases a <;> cases b
  case number.number x y => exact Binary64.beq_comm x y
  case string.string s t => exact BEq.comm
  case boolean.boolean p q => exact BEq.comm
  all_goals exact Binary64.beq_comm _ _

/-- The operators that ask for an order decide it for comparable values. -/
theorem decided_of_comparable
    {operator : BinaryOperator} {a b : Value}
    (ordering : operator.isOrdering = true)
    (comparable : Comparable a b) :
    Holds operator a b ∨ Fails operator a b := by
  cases operator with
  | greater | less | greaterOrEqual | lessOrEqual =>
      cases comparable <;> exact holds_or_fails rfl
  | equal | notEqual | add | subtract | multiply | divide | modulo =>
      cases ordering

theorem holds_equal_numbers (x y : Float) :
    Holds .equal (.number x) (.number y) ↔ (x == y) = true := by
  simp [Holds, BinaryOperator.apply, looselyEqual]

theorem holds_equal_strings (s t : String) :
    Holds .equal (.string s) (.string t) ↔ s = t := by
  simp [Holds, BinaryOperator.apply, looselyEqual]

theorem holds_less_numbers (x y : Float) :
    Holds .less (.number x) (.number y) ↔ x < y :=
  holds_iff rfl

theorem holds_less_strings (s t : String) :
    Holds .less (.string s) (.string t) ↔ s < t :=
  holds_iff rfl

/-- Two numbers are ordered. -/
theorem ordered_numbers (x y : Float) :
    Ordered (.number x) (.number y) where
  decided operator ordering := decided_of_comparable ordering (.numbers x y)
  greater := rfl
  greaterOrEqual := rfl
  lessOrEqual := by
    have atMost : Holds .lessOrEqual (.number x) (.number y) ↔ x ≤ y := holds_iff rfl
    rw [atMost, holds_less_numbers, holds_equal_numbers, Binary64.le_iff_lt_or_beq]
  exactlyOne := by
    intro number otherNumber
    simp only [IsNaN, Bool.not_eq_true] at number otherNumber
    have greater : Holds .greater (.number x) (.number y) ↔ y < x := holds_iff rfl
    rw [greater, holds_less_numbers, holds_equal_numbers,
      Binary64.lt_iff_rank_lt number otherNumber, Binary64.lt_iff_rank_lt otherNumber number,
      Binary64.beq_iff_rank_eq number otherNumber]
    exact exactlyOne_of_linearOrder _ _
  unordered := by
    intro noNumber operator comparison
    have swapped := Or.symm noNumber
    cases operator with
    | less => exact (fails_iff rfl).mpr (Binary64.not_lt_of_isNaN noNumber)
    | greater => exact (fails_iff rfl).mpr (Binary64.not_lt_of_isNaN swapped)
    | lessOrEqual => exact (fails_iff rfl).mpr (Binary64.not_le_of_isNaN noNumber)
    | greaterOrEqual => exact (fails_iff rfl).mpr (Binary64.not_le_of_isNaN swapped)
    | equal =>
        have unequal : (x == y) = false := Binary64.beq_eq_false_of_isNaN noNumber
        simp [Fails, BinaryOperator.apply, looselyEqual, unequal]
    | notEqual | add | subtract | multiply | divide | modulo =>
        simp [BinaryOperator.isOrdering] at comparison
  transitive := by
    intro c less more
    obtain ⟨_, z⟩ := comparable_of_holds rfl more
    rw [holds_less_numbers] at less more ⊢
    exact Binary64.lt_trans less more
  byCodePoint := by
    rintro s t ⟨⟩

/-- Two texts are ordered. -/
theorem ordered_strings (s t : String) :
    Ordered (.string s) (.string t) where
  decided operator ordering := decided_of_comparable ordering (.strings s t)
  greater := rfl
  greaterOrEqual := rfl
  lessOrEqual := by
    have atMost : Holds .lessOrEqual (.string s) (.string t) ↔ s ≤ t := holds_iff rfl
    rw [atMost, holds_less_strings, holds_equal_strings, le_iff_lt_or_eq]
  exactlyOne := by
    intro _ _
    have greater : Holds .greater (.string s) (.string t) ↔ t < s := holds_iff rfl
    rw [greater, holds_less_strings, holds_equal_strings]
    exact exactlyOne_of_linearOrder s t
  unordered := by
    rintro (⟨⟨⟩⟩ | ⟨⟨⟩⟩)
  transitive := by
    intro c less more
    obtain ⟨_, u⟩ := comparable_of_holds rfl more
    rw [holds_less_strings] at less more ⊢
    exact less.trans more
  byCodePoint := by
    rintro _ _ ⟨⟩ ⟨⟩
    rw [holds_less_strings, Text.codePoints_strictMono.lt_iff_lt,
      Text.utf8Bytes_strictMono.lt_iff_lt]
    exact ⟨Iff.rfl, Iff.rfl⟩

theorem Comparable.ordered
    {a b : Value}
    (comparable : Comparable a b) :
    Ordered a b := by
  cases comparable with
  | numbers x y => exact ordered_numbers x y
  | strings s t => exact ordered_strings s t

/--
Equality and inequality are decided for any two values, opposite and symmetric.  The
ordering operators decide the order of two numbers or two texts, in agreement with each
other and with equality, and refuse all other values with the same message.
-/
theorem comparisons_agree (a b : Value) :
    (∃ truth : Bool,
      BinaryOperator.equal.apply a b = .ok (.boolean truth) ∧
        BinaryOperator.equal.apply b a = .ok (.boolean truth) ∧
          BinaryOperator.notEqual.apply a b = .ok (.boolean !truth) ∧
            BinaryOperator.notEqual.apply b a = .ok (.boolean !truth)) ∧
      (Comparable a b → Ordered a b) ∧
        (¬ Comparable a b → ∃ fault : Fault,
          fault.message = s!"cannot compare {a.type.name} and {b.type.name}" ∧
            ∀ operator : BinaryOperator, operator.isOrdering = true →
              operator.apply a b = .error fault) := by
  refine ⟨⟨a.looselyEqual b, rfl, ?_, rfl, ?_⟩, Comparable.ordered, fun apart => ?_⟩
  · rw [looselyEqual_comm]
    rfl
  · rw [looselyEqual_comm]
    rfl
  · exact ⟨.notComparable a.type b.type, rfl, fun operator ordering =>
      apply_of_not_comparable ordering apart⟩

end Value

end Bhasha
