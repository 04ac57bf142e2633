import Bhasha.Proofs.Evaluation.Faults
import Bhasha.Proofs.Evaluation.Types

namespace Bhasha

/-!
# Programs without texts

A program that holds no text literal makes no text: every value is a number or a truth
value.  Truth values come from comparisons only; the history of a run tells where the
value of a name comes from, since it holds the statements that set it, the latest first.
So arithmetic has numbers for both operands and does not fault, and only an ordering
operator can refuse its operands, of which one is a truth value then.
-/

namespace BinaryOperator

/-- The operator makes a number of two numbers. -/
def isArithmetic : BinaryOperator → Bool
  | add | subtract | multiply | divide | modulo => true
  | equal | notEqual | greater | less | greaterOrEqual | lessOrEqual => false

/-- The operator asks for the order of two values. -/
def isOrdering : BinaryOperator → Bool
  | greater | less | greaterOrEqual | lessOrEqual => true
  | equal | notEqual | add | subtract | multiply | divide | modulo => false

variable {operator : BinaryOperator} {left right : ValueType}

/-- Arithmetic makes a number of operands that are no texts. -/
theorem infer_of_isArithmetic
    (arithmetic : operator.isArithmetic = true)
    (leftNumeric : left ≠ .string)
    (rightNumeric : right ≠ .string) :
    operator.infer left right = .ok .number := by
  cases operator <;> cases arithmetic <;>
    simp [infer, ValueType.sum, ValueType.arithmetic, leftNumeric, rightNumeric]

/-- A comparison makes a truth value. -/
theorem eq_boolean_of_infer
    {type : ValueType}
    (comparison : operator.isArithmetic = false)
    (inferred : operator.infer left right = .ok type) :
    type = .boolean := by
  cases operator with
  | add | subtract | multiply | divide | modulo =>
      cases comparison
  | equal | notEqual =>
      cases inferred
      rfl
  | greater | less | greaterOrEqual | lessOrEqual =>
      rw [infer, ValueType.comparison] at inferred
      split at inferred
      · cases inferred
        rfl
      · cases inferred

/-- Only an ordering operator refuses operands that are no texts, one of them a truth value. -/
theorem infer_eq_error_of_numeric
    {fault : Fault}
    (leftNumeric : left ≠ .string)
    (rightNumeric : right ≠ .string)
    (refused : operator.infer left right = .error fault) :
    operator.isOrdering = true ∧ fault = .notComparable left right ∧
      (left = .boolean ∨ right = .boolean) := by
  cases arithmetic : operator.isArithmetic with
  | true =>
      rw [infer_of_isArithmetic arithmetic leftNumeric rightNumeric] at refused
      cases refused
  | false =>
      cases operator with
      | add | subtract | multiply | divide | modulo =>
          cases arithmetic
      | equal | notEqual =>
          cases refused
      | greater | less | greaterOrEqual | lessOrEqual =>
          rw [infer, ValueType.comparison] at refused
          split at refused
          · cases refused
          case isFalse differ =>
            cases refused
            refine ⟨rfl, rfl, ?_⟩
            cases left <;> cases right <;> simp_all

end BinaryOperator

namespace Expression

/-- The expression is the literal of a text. -/
def isText : Expression → Bool
  | .literal (.string _) _ _ => true
  | .literal (.number _) _ _ | .name .. | .binary .. => false

/-- No part of an expression is the literal of a text. -/
def Textless (expression : Expression) : Prop :=
  ∀ part ∈ expression.parts, part.isText = false

theorem textless_binary_iff
    {operator : BinaryOperator} {left right : Expression} {span : Span} :
    (binary operator left right span).Textless ↔ left.Textless ∧ right.Textless := by
  simp [Textless, parts, isText, or_imp, forall_and]

end Expression

namespace Statement

/-- The expression of a statement: its value or its condition. -/
def expression : Statement → Expression
  | .declare _ _ value _ | .assign _ value _ | .print value _ => value
  | .ifThen condition _ _ | .ifElse condition _ _ _ | .loop condition _ _ => condition

/-- A statement with an effect evaluates its expression. -/
theorem expression_of_effect
    {statement : Statement} {expression : Expression} {effect : Value → Effect}
    (atomic : statement.effect? = some (expression, effect)) :
    statement.expression = expression := by
  cases statement <;> cases atomic <;> rfl

/-- The name that a statement sets and the expression of its value, if it sets one. -/
def sets? : Statement → Option (String × Expression)
  | .declare _ name value _ | .assign name value _ => some (name.text, value)
  | .print .. | .ifThen .. | .ifElse .. | .loop .. => none

end Statement

/-- No expression of a program holds the literal of a text. -/
def Program.Textless (program : Program) : Prop :=
  ∀ statement ∈ program.parts, statement.expression.Textless

/--
The value of an expression comes from a comparison.

It is a comparison itself, or a name that was last set to the value of one; the history
holds the statements that were completed, the latest first.
-/
inductive FromComparison : List Statement → Expression → Prop
  | compared
      {history : List Statement} {operator : BinaryOperator} {left right : Expression} {span : Span}
      (comparison : operator.isArithmetic = false) :
      FromComparison history (.binary operator left right span)
  | set
      {statement : Statement} {earlier : List Statement} {name : String} {value : Expression}
      {span : Span}
      (sets : statement.sets? = some (name, value))
      (compared : FromComparison earlier value) :
      FromComparison (statement :: earlier) (.name name span)
  | kept
      {statement : Statement} {earlier : List Statement} {name : String} {span : Span}
      (keeps : ∀ value, statement.sets? ≠ some (name, value))
      (compared : FromComparison earlier (.name name span)) :
      FromComparison (statement :: earlier) (.name name span)

/-- A value of an expression is no text, and it is a truth value exactly if a comparison made it. -/
structure Value.Numeric (history : List Statement) (expression : Expression) (value : Value) :
    Prop where
  noText : value.type ≠ .string
  truth : value.type = .boolean ↔ FromComparison history expression

/-- Every bound value is no text, and it is a truth value exactly if a comparison made it. -/
def Environment.Numeric (history : List Statement) (environment : Environment) : Prop :=
  ∀ name value span, environment.get? name = some value → value.Numeric history (.name name span)

namespace FromComparison

variable {history : List Statement} {statement : Statement} {name : String} {value : Expression}
  {span : Span}

theorem binary_iff
    {operator : BinaryOperator} {left right : Expression} :
    FromComparison history (.binary operator left right span) ↔ operator.isArithmetic = false := by
  constructor
  · rintro ⟨comparison⟩
    exact comparison
  · exact .compared

/-- A name that was just set has a truth value exactly if its expression had one. -/
theorem set_iff
    (sets : statement.sets? = some (name, value)) :
    FromComparison (statement :: history) (.name name span) ↔ FromComparison history value := by
  constructor
  · intro compared
    cases compared with
    | set otherSets compared =>
        cases sets.symm.trans otherSets
        exact compared
    | kept keeps compared =>
        exact absurd sets (keeps value)
  · exact .set sets

/-- A statement that does not set a name leaves its value. -/
theorem kept_iff
    (keeps : ∀ value, statement.sets? ≠ some (name, value)) :
    FromComparison (statement :: history) (.name name span) ↔
      FromComparison history (.name name span) := by
  constructor
  · intro compared
    cases compared with
    | set sets compared =>
        exact absurd sets (keeps _)
    | kept keeps compared =>
        exact compared
  · exact .kept keeps

end FromComparison

namespace Environment.Numeric

variable {history : List Statement} {environment : Environment} {statement : Statement}

/-- Nothing is bound in the empty environment. -/
theorem empty : Environment.empty.Numeric [] := by
  intro name value span found
  simp at found

/-- A statement that sets no name leaves the values. -/
theorem keep
    (numeric : environment.Numeric history)
    (keeps : statement.sets? = none) :
    environment.Numeric (statement :: history) := by
  intro name value span found
  obtain ⟨noText, truth⟩ := numeric name value span found
  exact ⟨noText, truth.trans (FromComparison.kept_iff (by simp [keeps])).symm⟩

/-- A name is set to a value of its expression, and the other values are left. -/
theorem define
    {name : String} {expression : Expression} {value : Value}
    (numeric : environment.Numeric history)
    (sets : statement.sets? = some (name, expression))
    (valueNumeric : value.Numeric history expression) :
    (environment.define name value).Numeric (statement :: history) := by
  intro other found span bound
  rw [get?_define] at bound
  split at bound
  case isTrue same =>
    cases bound
    subst same
    exact ⟨valueNumeric.noText, valueNumeric.truth.trans (FromComparison.set_iff sets).symm⟩
  case isFalse differs =>
    obtain ⟨noText, truth⟩ := numeric other found span bound
    exact ⟨noText, truth.trans (FromComparison.kept_iff (by simp [sets, differs])).symm⟩

end Environment.Numeric

namespace Metered

/-- Every value that comes out has a property. -/
def Yields (property : α → Prop) (result : Metered α) : Prop :=
  ∀ value, result.outcome = .ok value → property value

namespace Yields

variable {property : α → Prop}

theorem tick
    {limit steps : Nat} {next : Nat → Metered α}
    (following : Yields property (next (steps + 1))) :
    Yields property (Metered.tick limit steps next) := by
  unfold Metered.tick
  split
  · exact following
  · exact nofun

theorem andThen
    {laterProperty : β → Prop} {first : Metered α} {next : α → Nat → Metered β}
    (yields : Yields property first)
    (following : ∀ value steps, property value → Yields laterProperty (next value steps)) :
    Yields laterProperty (first.andThen next) := by
  rcases first with ⟨fault | value, steps⟩
  · exact nofun
  · exact following value steps (yields value rfl)

end Yields

end Metered

namespace BinaryOperator

variable {operator : BinaryOperator} {left right : Value}

/-- Arithmetic does not fault on operands that are no texts: it makes a number. -/
theorem exists_apply_of_isArithmetic
    (arithmetic : operator.isArithmetic = true)
    (leftNumeric : left.type ≠ .string)
    (rightNumeric : right.type ≠ .string) :
    ∃ result, operator.apply left right = .ok (.number result) := by
  have typed := operator.map_type_apply left right
  rw [infer_of_isArithmetic arithmetic leftNumeric rightNumeric] at typed
  generalize operator.apply left right = applied at typed
  rcases applied with fault | (result | result | result)
  · cases typed
  · exact ⟨result, rfl⟩
  · cases typed
  · cases typed

/-- An operator makes a number or a truth value of operands that are no texts. -/
theorem type_of_apply
    {value : Value}
    (leftNumeric : left.type ≠ .string)
    (rightNumeric : right.type ≠ .string)
    (applied : operator.apply left right = .ok value) :
    value.type ≠ .string ∧ (value.type = .boolean ↔ operator.isArithmetic = false) := by
  have typed := operator.map_type_apply left right
  rw [applied] at typed
  cases arithmetic : operator.isArithmetic with
  | true =>
      rw [infer_of_isArithmetic arithmetic leftNumeric rightNumeric] at typed
      have number : value.type = .number := Except.ok.inj typed
      simp [number]
  | false =>
      have boolean : value.type = .boolean := eq_boolean_of_infer arithmetic typed.symm
      simp [boolean]

/-- An operator that refuses operands that are no texts asks for the order of a truth value. -/
theorem apply_eq_error_of_numeric
    {fault : Fault}
    (leftNumeric : left.type ≠ .string)
    (rightNumeric : right.type ≠ .string)
    (refused : operator.apply left right = .error fault) :
    operator.isOrdering = true ∧ fault = .notComparable left.type right.type ∧
      (left.type = .boolean ∨ right.type = .boolean) := by
  have typed := operator.map_type_apply left right
  rw [refused] at typed
  exact infer_eq_error_of_numeric leftNumeric rightNumeric typed.symm

end BinaryOperator

namespace Expression

open Metered

variable {limit : Nat} {environment : Environment} {history : List Statement}

theorem recurse_numeric
    (numeric : environment.Numeric history)
    (expression : Expression)
    (textless : expression.Textless)
    (steps : Nat) :
    Yields (Value.Numeric history expression) (expression.recurse limit environment steps) := by
  induction expression generalizing steps with
  | literal literal raw span =>
      refine .tick ?_
      rintro value ⟨⟩
      cases literal with
      | number =>
          exact ⟨nofun, iff_of_false nofun nofun⟩
      | string =>
          cases textless _ (List.mem_singleton_self _)
  | name text span =>
      refine .tick ?_
      intro value found
      refine numeric text value span ?_
      simp only [Environment.lookup] at found
      split at found
      case h_1 bound =>
        cases found
        exact bound
      case h_2 =>
        cases found
  | binary operator left right span leftHypothesis rightHypothesis =>
      obtain ⟨leftTextless, rightTextless⟩ := textless_binary_iff.mp textless
      refine .tick <| (leftHypothesis leftTextless _).andThen fun leftValue steps leftNumeric => ?_
      refine (rightHypothesis rightTextless steps).andThen fun rightValue steps rightNumeric => ?_
      intro value applied
      obtain ⟨noText, truth⟩ :=
        BinaryOperator.type_of_apply leftNumeric.noText rightNumeric.noText applied
      exact ⟨noText, truth.trans FromComparison.binary_iff.symm⟩

/-- The value of an expression without texts, where no text is bound. -/
theorem numeric_of_evaluate
    {expression : Expression} {steps last : Nat} {value : Value}
    (numeric : environment.Numeric history)
    (textless : expression.Textless)
    (evaluated : expression.evaluate limit environment steps = .ok value last) :
    value.Numeric history expression := by
  rw [evaluate, walk_nil] at evaluated
  exact recurse_numeric numeric expression textless steps value (congrArg outcome evaluated)

end Expression

section

variable {limits : Limits} {machine later : Machine} {history : List Statement}

/-- A step leaves no text bound, if it completes a statement without texts. -/
theorem Step.numeric
    {task : Task} {effect? : Option Effect} {parts : List Task}
    (step : Step limits task machine effect? parts later)
    (numeric : machine.environment.Numeric history)
    (textless : ∀ statement ∈ task.completed, statement.expression.Textless) :
    later.environment.Numeric (task.completed ++ history) := by
  have kept := step.sameButSteps.environment
  cases step with
  | @effect statement expression effect _ middle _ value atomic evaluated executed =>
      rw [kept]
      have completed : (Task.statement statement).completed = [statement] :=
        if_pos (by simp [atomic])
      rw [completed] at textless ⊢
      have expressionTextless := textless statement (List.mem_singleton_self _)
      rw [Statement.expression_of_effect atomic] at expressionTextless
      have steppedNumeric : machine.stepped.environment.Numeric history := numeric
      have valueNumeric :=
        Expression.numeric_of_evaluate steppedNumeric expressionTextless evaluated.result
      cases statement with
      | declare | assign =>
          cases atomic
          exact numeric.define rfl valueNumeric
      | print =>
          cases atomic
          exact numeric.keep rfl
      | ifThen | ifElse | loop =>
          cases atomic
  | ifThen | ifThenSkipped | ifElse | loop | turn | turnOver | block | empty | next =>
      rw [kept]
      exact numeric

/-- No text is bound at a place of a run, if what was completed holds none. -/
theorem Reaches.numeric
    {tasks rest : List Task}
    (reaches : Reaches limits tasks machine history rest later)
    (numeric : machine.environment.Numeric [])
    (textless : ∀ statement ∈ history, statement.expression.Textless) :
    later.environment.Numeric history := by
  induction reaches with
  | start =>
      exact numeric
  | step reaches step inductionHypothesis =>
      obtain ⟨completed, before⟩ := List.forall_mem_append.mp textless
      exact step.numeric (inductionHypothesis before) completed

end

/-- The expression that a part of a textless program evaluates first is textless. -/
theorem Task.Within.textless
    {program : Program} {task : Task} {expression : Expression}
    (within : task.Within program.parts)
    (textless : program.Textless)
    (first : task.first? = some expression) :
    expression.Textless := by
  cases task with
  | statement statement =>
      have same : statement.expression = expression := by
        cases statement <;> cases first <;> rfl
      rw [← same]
      exact textless statement (within statement.mem_parts)
  | turns condition body =>
      cases first
      obtain ⟨span, inside⟩ := within
      exact textless _ (inside (Statement.mem_parts _))
  | block | body =>
      cases first

/-- The types of operands are refused. -/
def Fault.IsMismatch : Fault → Prop
  | .notApplicable .. | .notComparable .. => True
  | .undefinedVariable _ | .stepLimitExceeded | .outputLimitExceeded => False

/-- An ordering operator in an expression refuses its operands, of which one is a truth value. -/
def Expression.RefusesOrder
    (limit : Nat)
    (environment : Environment)
    (expression : Expression)
    (fault : Fault) : Prop :=
  ∃ operator left right span leftType rightType,
    .binary operator left right span ∈ expression.parts ∧
      operator.isOrdering = true ∧
        (Expression.binary operator left right span).Faults limit environment fault ∧
          fault = .notComparable leftType rightType ∧
            (leftType = .boolean ∨ rightType = .boolean)

/-- The parts of an expression without texts are without texts. -/
theorem Expression.Textless.of_mem_parts
    {expression part : Expression}
    (textless : expression.Textless)
    (member : part ∈ expression.parts) :
    part.Textless := by
  induction expression with
  | literal | name =>
      rw [List.mem_singleton.mp member]
      exact textless
  | binary operator left right span leftHypothesis rightHypothesis =>
      obtain ⟨leftTextless, rightTextless⟩ := textless_binary_iff.mp textless
      rcases List.mem_cons.mp member with rfl | inside
      · exact textless
      rcases List.mem_append.mp inside with inLeft | inRight
      · exact leftHypothesis leftTextless inLeft
      · exact rightHypothesis rightTextless inRight

/-- A textless expression that is refused for its types orders a truth value in one of its parts. -/
theorem Expression.refusesOrder_of_faults
    {limit : Nat} {environment : Environment} {history : List Statement}
    {expression part : Expression} {fault : Fault}
    (numeric : environment.Numeric history)
    (textless : expression.Textless)
    (member : part ∈ expression.parts)
    (faults : part.Faults limit environment fault)
    (mismatch : fault.IsMismatch) :
    expression.RefusesOrder limit environment fault := by
  have partTextless := textless.of_mem_parts member
  have whole := faults
  cases faults with
  | spent | unbound =>
      exact mismatch.elim
  | @refused operator left right span leftValue rightValue _ _ _ _ leftEvaluated rightEvaluated
      refused =>
      obtain ⟨leftTextless, rightTextless⟩ := textless_binary_iff.mp partTextless
      have leftNumeric := numeric_of_evaluate numeric leftTextless leftEvaluated
      have rightNumeric := numeric_of_evaluate numeric rightTextless rightEvaluated
      obtain ⟨ordering, same, truth⟩ :=
        BinaryOperator.apply_eq_error_of_numeric leftNumeric.noText rightNumeric.noText refused
      exact ⟨operator, left, right, span, _, _, member, ordering, whole, same, truth⟩

/-- A run that halts for refused types orders a truth value in the expression of its next step. -/
theorem Halts.refusesOrder
    {limits : Limits} {tasks : List Task} {machine : Machine} {ended : Ended}
    {history : List Statement} {program : Program} {fault : Fault}
    (halts : Halts limits tasks machine ended)
    (faulted : ended.fault = some fault)
    (mismatch : fault.IsMismatch)
    (numeric : machine.environment.Numeric history)
    (textless : program.Textless)
    (within : ∀ task ∈ tasks, task.Within program.parts) :
    ∃ task rest expression, tasks = task :: rest ∧ task.first? = some expression ∧
      expression.RefusesOrder limits.steps machine.environment fault := by
  cases halts with
  | done =>
      cases faulted
  | @stop task rest _ _ _ stops =>
      cases faulted
      cases stops.faults with
      | limit isLimit =>
          rcases isLimit with rfl | rfl
          · exact mismatch.elim
          · exact mismatch.elim
      | unbound =>
          exact mismatch.elim
      | expression first member faults =>
          have first_textless := (within task List.mem_cons_self).textless textless first
          exact ⟨task, rest, _, rfl, first,
            Expression.refusesOrder_of_faults numeric first_textless member faults mismatch⟩

/--
What holds of an environment where no text is bound, after a history.

Values are those of names and of expressions without text literals; operators are those of
such expressions, on the values of their operands.
-/
structure Environment.StaysNumeric (history : List Statement) (environment : Environment) :
    Prop where
  bound : environment.Numeric history
  evaluated :
    ∀ {expression : Expression} {limit steps last : Nat} {value : Value},
      expression.Textless → expression.evaluate limit environment steps = .ok value last →
        value.Numeric history expression
  calculates :
    ∀ {operator : BinaryOperator} {left right : Expression} {limit start middle last : Nat}
      {leftValue rightValue : Value},
      operator.isArithmetic = true → left.Textless → right.Textless →
        left.evaluate limit environment start = .ok leftValue middle →
          right.evaluate limit environment middle = .ok rightValue last →
            ∃ result, operator.apply leftValue rightValue = .ok (.number result)

theorem Environment.Numeric.staysNumeric
    {history : List Statement} {environment : Environment}
    (numeric : environment.Numeric history) :
    environment.StaysNumeric history where
  bound := numeric
  evaluated textless evaluated := Expression.numeric_of_evaluate numeric textless evaluated
  calculates arithmetic leftTextless rightTextless leftEvaluated rightEvaluated :=
    BinaryOperator.exists_apply_of_isArithmetic arithmetic
      (Expression.numeric_of_evaluate numeric leftTextless leftEvaluated).noText
      (Expression.numeric_of_evaluate numeric rightTextless rightEvaluated).noText

/--
A program without text literals stays numeric.

From an empty environment, at every place of its run no bound value and no value of an
expression without text literals is a text, and such a value is a truth value exactly if it
is that of a comparison or of a name last set to one; and arithmetic on such values makes a
number.  So when the run faults for the types of operands, the expression that is evaluated
there orders a truth value.
-/
theorem Program.execute_numeric
    (program : Program)
    (textless : program.Textless)
    (limits : Limits)
    (machine : Machine)
    (empty : machine.environment = .empty) :
    (∀ {history rest later},
      Reaches limits [.body program.body] machine.stepped history rest later →
        later.environment.StaysNumeric history) ∧
    ∀ fault, (program.execute limits machine).fault = some fault → fault.IsMismatch →
      ∃ history task rest later expression,
        Reaches limits [.body program.body] machine.stepped history (task :: rest) later ∧
          task.first? = some expression ∧
            expression.RefusesOrder limits.steps later.environment fault := by
  have start : machine.stepped.environment.Numeric [] := by
    change machine.environment.Numeric []
    rw [empty]
    exact Environment.Numeric.empty
  have inside : ∀ task ∈ [Task.body program.body], task.Within program.parts :=
    List.forall_mem_singleton.mpr (List.Subset.refl program.parts)
  have place {history rest later}
      (reaches : Reaches limits [.body program.body] machine.stepped history rest later) :
      later.environment.Numeric history :=
    reaches.numeric start fun statement member =>
      textless statement ((reaches.within inside).2 member)
  refine ⟨fun reaches => (place reaches).staysNumeric, fun fault faulted mismatch => ?_⟩
  rw [Program.execute] at faulted
  rcases Nat.lt_or_ge machine.steps limits.steps with left | exhausted
  · rw [Machine.tick_of_left left] at faulted
    obtain ⟨history, rest, later, reaches, halts⟩ :=
      exists_reaches_halts limits [.body program.body] machine.stepped
    rw [Task.executeEach_singleton] at halts
    obtain ⟨task, others, expression, rfl, first, refuses⟩ :=
      halts.refusesOrder faulted mismatch (place reaches) textless (reaches.within inside).1
    exact ⟨history, task, others, later, expression, reaches, first, refuses⟩
  · rw [Machine.tick_of_exhausted exhausted] at faulted
    cases faulted
    exact mismatch.elim

/-- The declaration of a name with a comparison for its value. -/
def judgement : Statement :=
  let span := Span.point .first
  let number (value : Float) : Expression := .literal (.number value) "" span
  .declare .integer ⟨"a", span⟩ (.binary .less (number 1.0) (number 2.0) span) span

/-- A program that adds a number to the value of a comparison and then orders the two. -/
def judgements : Program :=
  let span := Span.point .first
  let one : Expression := .literal (.number 1.0) "" span
  let name : Expression := .name "a" span
  ⟨[judgement, .print (.binary .add name one span) span,
    .print (.binary .less name one span) span], span⟩

/-- The program `judgements` adds to a truth value and faults where it orders it. -/
theorem execute_judgements :
    judgements.Textless ∧ Machine.initial.environment = .empty ∧
      (∃ rest later, Reaches .standard [.body judgements.body] Machine.initial.stepped [judgement]
          rest later ∧
        later.environment.get? "a" = some (.boolean true) ∧
          FromComparison [judgement] (.name "a" (.point .first))) ∧
      (judgements.execute .standard .initial).fault = some (.notComparable .boolean .number) ∧
        ∃ task expression environment, Task.first? task = some expression ∧
          expression.RefusesOrder Limits.standard.steps environment
            (.notComparable .boolean .number) := by
  have textless : judgements.Textless := by
    simp [Program.Textless, Program.parts, judgements, judgement, partsAll, Statement.parts,
      Statement.expression, Expression.Textless, Expression.parts, Expression.isText]
  have faulted :
      (judgements.execute .standard .initial).fault = some (.notComparable .boolean .number) :=
    rfl
  obtain ⟨places, faults⟩ := judgements.execute_numeric textless .standard .initial rfl
  refine ⟨textless, rfl, ?_, faulted, ?_⟩
  · have evaluated :
        Machine.initial.stepped.stepped.Evaluates .standard judgement.expression
          (.ok (.boolean true)) ⟨.empty, 5, #[]⟩ :=
      ⟨rfl, rfl⟩
    have executed :
        judgement.execute .standard Machine.initial.stepped =
          Machine.done ⟨.define .empty "a" (.boolean true), 5, #[]⟩ :=
      rfl
    have reaches :
        Reaches .standard [.body judgements.body] Machine.initial.stepped [judgement]
          [.body judgements.body.tail] ⟨.define .empty "a" (.boolean true), 5, #[]⟩ :=
      .step (.step .start .next) (.effect rfl evaluated executed)
    have bound := (places reaches).bound "a" (.boolean true) (.point .first) rfl
    exact ⟨_, _, reaches, rfl, bound.truth.mp rfl⟩
  · obtain ⟨history, task, rest, later, expression, -, first, refuses⟩ :=
      faults _ faulted trivial
    exact ⟨task, expression, later.environment, first, refuses⟩

end Bhasha
