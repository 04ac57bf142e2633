import Bhasha.Evaluation.Expression

namespace Bhasha

/-!
# Evaluation by recursion

`Expression.recurse` evaluates an expression in the plain way: one step for the
node, then the left operand, then the right operand, then the operator.  The walk
down the left side with its list of pending operators does the same, also where
it faults: it takes the same steps in the same order.
-/

namespace Metered

/-- What follows two parts in turn follows the second of them. -/
theorem andThen_assoc
    (first : Metered α)
    (next : α → Nat → Metered β)
    (last : β → Nat → Metered γ) :
    (first.andThen next).andThen last =
      first.andThen fun value steps => (next value steps).andThen last := by
  rcases first with ⟨fault | value, steps⟩ <;> rfl

/-- What follows a step and its part follows the part, if the step is within the limit. -/
theorem tick_andThen
    (limit steps : Nat)
    (next : Nat → Metered α)
    (last : α → Nat → Metered β) :
    (tick limit steps next).andThen last =
      tick limit steps fun steps => (next steps).andThen last := by
  unfold tick
  split <;> rfl

/-- A result that nothing follows is left as it is. -/
theorem andThen_ok (result : Metered α) :
    result.andThen ok = result := by
  rcases result with ⟨fault | value, steps⟩ <;> rfl

end Metered

namespace Expression

open Metered

/-- Evaluate an expression: one step, then its operands from left to right, then its operator. -/
def recurse
    (limit : Nat)
    (environment : Environment) :
    Expression → Nat → Metered Value
  | .literal value _ _, steps => Metered.tick limit steps (Metered.ok value.toValue)
  | .name text _, steps => Metered.tick limit steps fun steps => ⟨environment.lookup text, steps⟩
  | .binary operator left right _, steps =>
      Metered.tick limit steps fun steps =>
        (left.recurse limit environment steps).andThen fun leftValue steps =>
          (right.recurse limit environment steps).andThen fun rightValue steps =>
            ⟨operator.apply leftValue rightValue, steps⟩

/-- With nothing pending a value is the result. -/
theorem settle_nil :
    settle [] = Metered.ok :=
  rfl

/-- The operator that was pending first is applied, and the others follow. -/
theorem settle_cons
    (operator : BinaryOperator)
    (right : Nat → Metered Value)
    (pending : List Pending)
    (left : Value)
    (steps : Nat) :
    settle (⟨operator, right⟩ :: pending) left steps =
      (right steps).andThen fun value steps =>
        (⟨operator.apply left value, steps⟩ : Metered Value).andThen (settle pending) := by
  refine congrArg (right steps).andThen (funext fun value => funext fun steps => ?_)
  cases operator.apply left value <;> rfl

/--
The walk evaluates its expression and then settles what is pending.

The induction is on the expression with any operators pending: a left operand is
walked with one more of them, and a right operand with none.
-/
theorem walk_eq_recurse_andThen
    (limit : Nat)
    (environment : Environment)
    (expression : Expression)
    (pending : List Pending)
    (steps : Nat) :
    walk limit environment expression pending steps =
      (expression.recurse limit environment steps).andThen (settle pending) := by
  induction expression generalizing pending steps with
  | literal value raw span =>
      rw [recurse, tick_andThen, walk]
      rfl
  | name text span =>
      rw [recurse, tick_andThen, walk]
      refine congrArg (tick limit steps) (funext fun steps => ?_)
      cases environment.lookup text <;> rfl
  | binary operator left right span leftHypothesis rightHypothesis =>
      have alone : walk limit environment right [] = right.recurse limit environment := by
        funext steps
        rw [rightHypothesis, settle_nil, andThen_ok]
      rw [recurse, tick_andThen, walk, alone]
      refine congrArg (tick limit steps) (funext fun steps => ?_)
      rw [leftHypothesis, andThen_assoc]
      refine congrArg (andThen _) (funext fun leftValue => funext fun steps => ?_)
      rw [settle_cons, andThen_assoc]

/-- With nothing pending the walk is plain recursion. -/
theorem walk_nil
    (limit : Nat)
    (environment : Environment)
    (expression : Expression)
    (steps : Nat) :
    walk limit environment expression [] steps = expression.recurse limit environment steps := by
  rw [walk_eq_recurse_andThen, settle_nil, andThen_ok]

/--
The walk with pending operators and plain recursion have the same results.

From every environment, step count and limit they end with the same value or the
same fault after the same number of steps.
-/
theorem evaluate_eq_recurse
    (limit : Nat)
    (environment : Environment)
    (expression : Expression)
    (steps : Nat) :
    expression.evaluate limit environment steps =
      expression.recurse limit environment steps := by
  rw [evaluate, walk_eq_recurse_andThen, settle_nil, andThen_ok]

end Expression

end Bhasha
