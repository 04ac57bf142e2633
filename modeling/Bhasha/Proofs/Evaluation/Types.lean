import Bhasha.Proofs.Evaluation.Recursion

namespace Bhasha

/-!
# Types of expressions

An operator makes a value of a type that depends on the types of its operands only,
and so does the fault that it may cause.  `Expression.infer` therefore evaluates an
expression with types in the place of values: it knows no more of an environment than
the types of its names, and it finds the type, the fault and the number of steps of the
evaluation.

Environments that bind the same names to values of the same types cannot be told apart
by any of the three.
-/

namespace ValueType

/-- The type of a sum: a text on either side makes it a text. -/
def sum (left right : ValueType) : ValueType :=
  if left = string ∨ right = string then string else number

/-- The type of what an operator makes of two numbers; a text on either side is refused. -/
def arithmetic (operator : BinaryOperator) (left right : ValueType) : Except Fault ValueType :=
  if left = string ∨ right = string then .error (.notApplicable operator left right)
  else .ok number

/-- The type of a comparison, which takes two numbers or two texts. -/
def comparison (left right : ValueType) : Except Fault ValueType :=
  if left = right ∧ left ≠ boolean then .ok boolean else .error (.notComparable left right)

end ValueType

namespace Value

theorem type_add (left right : Value) :
    (left.add right).type = left.type.sum right.type := by
  cases left <;> cases right <;> rfl

theorem map_type_arithmetic
    (operator : BinaryOperator)
    (operation : Float → Float → Float)
    (left right : Value) :
    (left.arithmetic operator operation right).map type =
      left.type.arithmetic operator right.type := by
  cases left <;> cases right <;> rfl

theorem map_type_compare
    (numbers : Float → Float → Bool)
    (texts : String → String → Bool)
    (left right : Value) :
    (compare numbers texts left right).map type = left.type.comparison right.type := by
  cases left <;> cases right <;> rfl

end Value

namespace BinaryOperator

/-- The type of an operator on operands of two types, or the fault that they cause. -/
def infer (operator : BinaryOperator) (left right : ValueType) : Except Fault ValueType :=
  match operator with
  | equal | notEqual => .ok .boolean
  | less | greater | lessOrEqual | greaterOrEqual => left.comparison right
  | add => .ok (left.sum right)
  | subtract | multiply | divide | modulo => left.arithmetic operator right

/-- The type and the fault of an operator depend on the types of its operands only. -/
theorem map_type_apply (operator : BinaryOperator) (left right : Value) :
    (operator.apply left right).map Value.type = operator.infer left.type right.type := by
  cases operator with
  | equal | notEqual =>
      rfl
  | less | greater | lessOrEqual | greaterOrEqual =>
      exact Value.map_type_compare _ _ left right
  | add =>
      exact congrArg Except.ok (Value.type_add left right)
  | subtract | multiply | divide | modulo =>
      exact Value.map_type_arithmetic _ _ left right

end BinaryOperator

namespace Metered

/-- The same result with another value. -/
def map (change : α → β) (result : Metered α) : Metered β :=
  ⟨result.outcome.map change, result.steps⟩

theorem map_tick
    (change : α → β)
    (limit steps : Nat)
    (next : Nat → Metered α) :
    (tick limit steps next).map change = tick limit steps fun steps => (next steps).map change := by
  unfold tick
  split <;> rfl

/-- What follows a part can be changed with it. -/
theorem map_andThen
    {first : Metered α} {next : α → Nat → Metered β}
    {change : α → γ} {changeNext : β → δ} {changedNext : γ → Nat → Metered δ}
    (same : ∀ value steps, (next value steps).map changeNext = changedNext (change value) steps) :
    (first.andThen next).map changeNext = (first.map change).andThen changedNext := by
  rcases first with ⟨fault | value, steps⟩
  · rfl
  · exact same value steps

/-- Two results that have values of one type, or one fault, after the same number of steps. -/
inductive Matches : Metered Value → Metered Value → Prop
  | values
      {value other : Value} {steps : Nat}
      (same : value.type = other.type) :
      Matches (ok value steps) (ok other steps)
  | faults
      {faulted : Fault} {steps : Nat} :
      Matches (fault faulted steps) (fault faulted steps)

/-- A fault is matched by itself only. -/
theorem Matches.eq_fault
    {faulted : Fault} {steps : Nat} {other : Metered Value}
    (matching : (fault faulted steps).Matches other) :
    other = fault faulted steps := by
  cases matching
  rfl

/-- Results match when they are the same with types in the place of values. -/
theorem matches_of_map_type_eq
    {result other : Metered Value}
    (same : result.map Value.type = other.map Value.type) :
    result.Matches other := by
  rcases result with ⟨faulted | value, steps⟩ <;> rcases other with ⟨otherFaulted | other, others⟩
  · cases same
    exact .faults
  · cases same
  · cases same
  · obtain ⟨sameType, rfl⟩ : value.type = other.type ∧ steps = others := by
      simpa [map, Except.map] using same
    exact .values sameType

end Metered

namespace Environment

/-- The type of the value of a name, if it is bound. -/
def typeOf? (environment : Environment) (name : String) : Option ValueType :=
  (environment.get? name).map Value.type

/-- The same names are bound, to values of the same types. -/
def SameTypes (first second : Environment) : Prop :=
  ∀ name, first.typeOf? name = second.typeOf? name

namespace SameTypes

theorem refl (environment : Environment) :
    environment.SameTypes environment :=
  fun _ => rfl

/-- A name may be bound to different values of one type. -/
theorem define
    {first second : Environment} {value other : Value}
    (same : first.SameTypes second)
    (sameType : value.type = other.type)
    (name : String) :
    (first.define name value).SameTypes (second.define name other) := by
  intro bound
  unfold typeOf?
  rw [get?_define, get?_define]
  split
  · exact congrArg some sameType
  · exact same bound

end SameTypes

end Environment

namespace Expression

open Metered

/-- The type that a name is known to have, or the fault that it is not bound. -/
def inferName (types : String → Option ValueType) (name : String) : Except Fault ValueType :=
  match types name with
  | some type => .ok type
  | none => .error (.undefinedVariable name)

/-- Evaluate an expression with types in the place of values. -/
def infer
    (limit : Nat)
    (types : String → Option ValueType) :
    Expression → Nat → Metered ValueType
  | .literal value _ _, steps => tick limit steps (Metered.ok value.toValue.type)
  | .name text _, steps => tick limit steps fun steps => ⟨inferName types text, steps⟩
  | .binary operator left right _, steps =>
      tick limit steps fun steps =>
        (left.infer limit types steps).andThen fun leftType steps =>
          (right.infer limit types steps).andThen fun rightType steps =>
            ⟨operator.infer leftType rightType, steps⟩

theorem map_type_lookup (environment : Environment) (name : String) :
    (environment.lookup name).map Value.type = inferName environment.typeOf? name := by
  unfold Environment.lookup inferName Environment.typeOf?
  cases environment.get? name <;> rfl

/-- Evaluation over types gives the type, the fault and the steps of evaluation over values. -/
theorem map_type_evaluate
    (limit : Nat)
    (environment : Environment)
    (expression : Expression)
    (steps : Nat) :
    (expression.evaluate limit environment steps).map Value.type =
      expression.infer limit environment.typeOf? steps := by
  rw [evaluate, walk_nil]
  induction expression generalizing steps with
  | literal value raw span =>
      rw [recurse, map_tick, infer]
      rfl
  | name text span =>
      rw [recurse, map_tick, infer]
      refine congrArg (tick limit steps) (funext fun steps => ?_)
      rw [← map_type_lookup]
      rfl
  | binary operator left right span leftHypothesis rightHypothesis =>
      rw [recurse, map_tick, infer]
      refine congrArg (tick limit steps) (funext fun steps => ?_)
      rw [← leftHypothesis]
      refine map_andThen fun leftValue steps => ?_
      rw [← rightHypothesis]
      refine map_andThen fun rightValue steps => ?_
      rw [← operator.map_type_apply]
      rfl

/--
The type, the fault and the cost of an expression depend only on the types of its variables.

In two environments that bind the same names to values of the same types, an expression
has values of one type or causes the same fault, and takes the same number of steps.
-/
theorem evaluate_matches
    {first second : Environment}
    (same : first.SameTypes second)
    (limit : Nat)
    (expression : Expression)
    (steps : Nat) :
    (expression.evaluate limit first steps).Matches
      (expression.evaluate limit second steps) := by
  apply matches_of_map_type_eq
  rw [map_type_evaluate, map_type_evaluate, funext same]

/-- The comparison `label + share > share`. -/
def labelledShare : Expression :=
  let name (text : String) : Expression := .name text (.point .first)
  .join .greater (.join .add (name "label") (name "share")) (name "share")

/-- An environment that binds a text and a number. -/
def labelled (label : String) (share : Float) : Environment :=
  (Environment.empty.define "label" (.string label)).define "share" (.number share)

/-- The comparison of a text and a number faults alike for another text and another number. -/
theorem evaluate_matches_labelled :
    (labelled "a" 1.0).SameTypes (labelled "" (0.0 / 0.0)) ∧
      labelledShare.evaluate 5 (labelled "a" 1.0) 0 = fault (.notComparable .string .number) 5 ∧
        labelledShare.evaluate 5 (labelled "" (0.0 / 0.0)) 0 =
          fault (.notComparable .string .number) 5 := by
  have texts : (Value.string "a").type = (Value.string "").type :=
    rfl
  have numbers : (Value.number 1.0).type = (Value.number (0.0 / 0.0)).type :=
    rfl
  have same : (labelled "a" 1.0).SameTypes (labelled "" (0.0 / 0.0)) :=
    ((Environment.SameTypes.refl .empty).define texts "label").define numbers "share"
  have faulted :
      labelledShare.evaluate 5 (labelled "a" 1.0) 0 = fault (.notComparable .string .number) 5 :=
    rfl
  have matching := evaluate_matches same 5 labelledShare 0
  rw [faulted] at matching
  exact ⟨same, faulted, matching.eq_fault⟩

end Expression

end Bhasha
