import Bhasha.Environment
import Bhasha.Evaluation.Meter
import Bhasha.Syntax.Tree

namespace Bhasha

/-!
# Evaluating expressions

An operator tree leans to the left when a chain of operators is written without
parentheses.  `Expression.walk` goes down the left side first, while it keeps
what is still to be done in a list, and then takes the right operands in order;
so the depth of the walk is the depth of right operands only.
-/

namespace Literal

/-- The value of a literal. -/
def toValue : Literal → Value
  | number value => .number value
  | string value => .string value

end Literal

namespace Environment

/-- The value of a name, or the fault that it is not bound. -/
def lookup (environment : Environment) (name : String) : Except Fault Value :=
  match environment.get? name with
  | some value => .ok value
  | none => .error (.undefinedVariable name)

end Environment

namespace Expression

/-- An operator whose left operand is under way, and the evaluation of its right operand. -/
structure Pending where
  operator : BinaryOperator
  right : Nat → Metered Value

/-- Apply pending operators to a left operand, innermost first. -/
def settle : List Pending → Value → Nat → Metered Value
  | [], value, steps => .ok value steps
  | pending :: rest, left, steps =>
      (pending.right steps).andThen fun right steps =>
        match pending.operator.apply left right with
        | .ok value => settle rest value steps
        | .error fault => .fault fault steps

/-- Evaluate an expression that is the leftmost operand of pending operators. -/
def walk
    (limit : Nat)
    (environment : Environment) :
    Expression → List Pending → Nat → Metered Value
  | .literal value _ _, pending, steps =>
      Metered.tick limit steps fun steps => settle pending value.toValue steps
  | .name text _, pending, steps =>
      Metered.tick limit steps fun steps =>
        match environment.lookup text with
        | .ok value => settle pending value steps
        | .error fault => .fault fault steps
  | .binary operator left right _, pending, steps =>
      Metered.tick limit steps fun steps =>
        walk limit environment left (⟨operator, walk limit environment right []⟩ :: pending) steps

/-- Evaluate an expression after some steps, with a limit on all steps. -/
def evaluate
    (limit : Nat)
    (environment : Environment)
    (expression : Expression)
    (steps : Nat) : Metered Value :=
  walk limit environment expression [] steps

end Expression

end Bhasha
