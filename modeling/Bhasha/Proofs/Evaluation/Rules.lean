import Bhasha.Proofs.Evaluation.Truncation

namespace Bhasha

/-!
# Rules of execution

`Executes` gives the rules by which the parts of a program are executed.  Its
loop has no count of turns: a loop whose condition is true executes its block and
starts over, so a derivation exists only where the loop comes to an end.

`executes_iff` says that every part has exactly one end from every machine, and
that it is the one that is computed: the turns that `Machine.turn` allows are
always enough.
-/

/-- A part of a program that is executed. -/
inductive Task where
  | statement (statement : Statement)
  | block (block : Block)
  | body (body : List Statement)
  | turns (condition : Expression) (body : Block)

namespace Task

/-- Statements and blocks take a step of their own before anything else. -/
def Counted : Task → Prop
  | .statement _ | .block _ => True
  | .body _ | .turns .. => False

/-- The computed end of a part. -/
def execute (limits : Limits) : Task → Machine → Ended
  | .statement part, machine => part.execute limits machine
  | .block part, machine => part.execute limits machine
  | .body parts, machine => executeAll limits parts machine
  | .turns condition part, machine =>
      machine.turn limits condition (part.execute limits) (limits.steps - machine.steps)

end Task

/-- The expression that a statement evaluates once, at its start. -/
def Statement.first? : Statement → Option Expression
  | .declare _ _ value _ | .assign _ value _ | .print value _ => some value
  | .ifThen condition _ _ | .ifElse condition _ _ _ => some condition
  | .loop .. => none

namespace Machine

/-- The machine after one more step. -/
def stepped (machine : Machine) : Machine :=
  { machine with steps := machine.steps + 1 }

/-- An expression is evaluated: the later machine differs in its steps only. -/
structure Evaluates
    (limits : Limits)
    (machine : Machine)
    (expression : Expression)
    (outcome : Except Fault Value)
    (later : Machine) : Prop where
  result :
    expression.evaluate limits.steps machine.environment machine.steps = ⟨outcome, later.steps⟩
  kept : later = { machine with steps := later.steps }

end Machine

/-- The rules by which a part of a program is executed from a machine to an end. -/
inductive Executes (limits : Limits) : Task → Machine → Ended → Prop
  | spent
      {task : Task} {machine : Machine}
      (counted : task.Counted)
      (exhausted : limits.steps ≤ machine.steps) :
      Executes limits task machine (machine.stepped.stop .stepLimitExceeded)
  | faulted
      {statement : Statement} {machine later : Machine} {expression : Expression} {fault : Fault}
      (first : statement.first? = some expression)
      (left : machine.steps < limits.steps)
      (evaluated : machine.stepped.Evaluates limits expression (.error fault) later) :
      Executes limits (.statement statement) machine (later.stop fault)
  | declare
      {type : DeclaredType} {name : Name} {expression : Expression} {span : Span}
      {machine later : Machine} {value : Value}
      (left : machine.steps < limits.steps)
      (evaluated : machine.stepped.Evaluates limits expression (.ok value) later) :
      Executes limits (.statement (.declare type name expression span)) machine
        (later.define name.text value).done
  | assign
      {name : Name} {expression : Expression} {span : Span}
      {machine later : Machine} {value : Value}
      (left : machine.steps < limits.steps)
      (evaluated : machine.stepped.Evaluates limits expression (.ok value) later) :
      Executes limits (.statement (.assign name expression span)) machine
        (later.assign name.text value)
  | print
      {expression : Expression} {span : Span} {machine later : Machine} {value : Value}
      (left : machine.steps < limits.steps)
      (evaluated : machine.stepped.Evaluates limits expression (.ok value) later) :
      Executes limits (.statement (.print expression span)) machine (later.print limits value)
  | ifThen
      {condition : Expression} {consequent : Block} {span : Span}
      {machine later : Machine} {value : Value} {ended : Ended}
      (left : machine.steps < limits.steps)
      (evaluated : machine.stepped.Evaluates limits condition (.ok value) later)
      (truthy : value.isTruthy = true)
      (executed : Executes limits (.block consequent) later ended) :
      Executes limits (.statement (.ifThen condition consequent span)) machine ended
  | ifThenSkipped
      {condition : Expression} {consequent : Block} {span : Span}
      {machine later : Machine} {value : Value}
      (left : machine.steps < limits.steps)
      (evaluated : machine.stepped.Evaluates limits condition (.ok value) later)
      (falsy : value.isTruthy = false) :
      Executes limits (.statement (.ifThen condition consequent span)) machine later.done
  | ifElse
      {condition : Expression} {consequent alternate : Block} {span : Span}
      {machine later : Machine} {value : Value} {ended : Ended}
      (left : machine.steps < limits.steps)
      (evaluated : machine.stepped.Evaluates limits condition (.ok value) later)
      (executed :
        Executes limits (.block (if value.isTruthy then consequent else alternate)) later ended) :
      Executes limits (.statement (.ifElse condition consequent alternate span)) machine ended
  | loop
      {condition : Expression} {body : Block} {span : Span} {machine : Machine} {ended : Ended}
      (left : machine.steps < limits.steps)
      (turned : Executes limits (.turns condition body) machine.stepped ended) :
      Executes limits (.statement (.loop condition body span)) machine ended
  | turnFaulted
      {condition : Expression} {body : Block} {machine later : Machine} {fault : Fault}
      (evaluated : machine.Evaluates limits condition (.error fault) later) :
      Executes limits (.turns condition body) machine (later.stop fault)
  | turnOver
      {condition : Expression} {body : Block} {machine later : Machine} {value : Value}
      (evaluated : machine.Evaluates limits condition (.ok value) later)
      (falsy : value.isTruthy = false) :
      Executes limits (.turns condition body) machine later.done
  | turnStopped
      {condition : Expression} {body : Block} {machine later last : Machine} {value : Value}
      {fault : Fault}
      (evaluated : machine.Evaluates limits condition (.ok value) later)
      (truthy : value.isTruthy = true)
      (executed : Executes limits (.block body) later (last.stop fault)) :
      Executes limits (.turns condition body) machine (last.stop fault)
  | turnAgain
      {condition : Expression} {body : Block} {machine later middle : Machine} {value : Value}
      {ended : Ended}
      (evaluated : machine.Evaluates limits condition (.ok value) later)
      (truthy : value.isTruthy = true)
      (executed : Executes limits (.block body) later middle.done)
      (turned : Executes limits (.turns condition body) middle ended) :
      Executes limits (.turns condition body) machine ended
  | block
      {body : List Statement} {span : Span} {machine : Machine} {ended : Ended}
      (left : machine.steps < limits.steps)
      (executed : Executes limits (.body body) machine.stepped ended) :
      Executes limits (.block (.mk body span)) machine ended
  | empty
      {machine : Machine} :
      Executes limits (.body []) machine machine.done
  | bodyStopped
      {statement : Statement} {rest : List Statement} {machine later : Machine} {fault : Fault}
      (executed : Executes limits (.statement statement) machine (later.stop fault)) :
      Executes limits (.body (statement :: rest)) machine (later.stop fault)
  | bodyNext
      {statement : Statement} {rest : List Statement} {machine later : Machine} {ended : Ended}
      (executed : Executes limits (.statement statement) machine later.done)
      (following : Executes limits (.body rest) later ended) :
      Executes limits (.body (statement :: rest)) machine ended

namespace Machine

variable {limits : Limits}

/-- With no step left a step stops the execution. -/
theorem tick_of_exhausted
    {machine : Machine}
    (exhausted : limits.steps ≤ machine.steps)
    (next : Machine → Ended) :
    machine.tick limits next = machine.stepped.stop .stepLimitExceeded := by
  simp only [tick, stepped, Nat.not_le.mpr (Nat.lt_succ_of_le exhausted), ↓reduceIte]

/-- A step within the limit is followed by what comes next. -/
theorem tick_of_left
    {machine : Machine}
    (left : machine.steps < limits.steps)
    (next : Machine → Ended) :
    machine.tick limits next = next machine.stepped := by
  simp only [tick, stepped, Nat.succ_le_of_lt left, ↓reduceIte]

namespace Evaluates

variable {machine later : Machine} {expression : Expression}

theorem evaluate_ok
    {value : Value}
    (evaluated : machine.Evaluates limits expression (.ok value) later)
    (next : Value → Machine → Ended) :
    machine.evaluate limits expression next = next value later := by
  rw [evaluate, evaluated.result, evaluated.kept]

theorem evaluate_error
    {fault : Fault}
    (evaluated : machine.Evaluates limits expression (.error fault) later)
    (next : Value → Machine → Ended) :
    machine.evaluate limits expression next = later.stop fault := by
  rw [evaluate, evaluated.result, evaluated.kept]

/-- An evaluation takes a step. -/
theorem steps_lt
    {outcome : Except Fault Value}
    (evaluated : machine.Evaluates limits expression outcome later) :
    machine.steps < later.steps := by
  have after := (expression.evaluate_follows (Nat.le_refl limits.steps) machine.environment
    machine.steps).after
  rwa [evaluated.result] at after

end Evaluates

/-- An expression has a value or a fault. -/
theorem exists_evaluates
    (limits : Limits)
    (machine : Machine)
    (expression : Expression) :
    (∃ value later, machine.Evaluates limits expression (.ok value) later) ∨
      ∃ fault later, machine.Evaluates limits expression (.error fault) later := by
  rcases found : expression.evaluate limits.steps machine.environment machine.steps with
    ⟨fault | value, steps⟩
  · exact .inr ⟨fault, { machine with steps := steps }, found, rfl⟩
  · exact .inl ⟨value, { machine with steps := steps }, found, rfl⟩

/-- A loop does the same with any turns that are enough for the steps that are left. -/
theorem turn_eq_turn
    {condition : Expression} {body : Machine → Ended}
    (before : ∀ machine : Machine, machine.Before (body machine).machine)
    (allowed : Nat) :
    ∀ (other : Nat) (machine : Machine),
      limits.steps - machine.steps ≤ allowed →
      limits.steps - machine.steps ≤ other →
        machine.turn limits condition body allowed = machine.turn limits condition body other := by
  induction allowed with
  | zero =>
      intro other machine enough otherEnough
      have exhausted : limits.steps ≤ machine.steps := by
        omega
      rw [turn_eq enough, turn_eq otherEnough]
      simp only [evaluate, Expression.evaluate_of_exhausted exhausted, Metered.fault]
  | succ allowed inductionHypothesis =>
      intro other machine enough otherEnough
      rw [turn_eq enough, turn_eq otherEnough]
      rcases machine.exists_evaluates limits condition with
        ⟨value, later, evaluated⟩ | ⟨fault, later, evaluated⟩
      · rw [evaluated.evaluate_ok, evaluated.evaluate_ok]
        cases value.isTruthy with
        | false =>
            rfl
        | true =>
            have advanced := Nat.lt_of_lt_of_le evaluated.steps_lt (before later).steps
            generalize body later = ended at advanced
            rcases ended with ⟨_ | fault, middle⟩
            · have farther : machine.steps < middle.steps := advanced
              exact inductionHypothesis (other - 1) middle (by omega) (by omega)
            · rfl
      · rw [evaluated.evaluate_error, evaluated.evaluate_error]

end Machine

/-- Executing a block leads to no earlier machine. -/
theorem Block.before_execute
    (limits : Limits)
    (block : Block)
    (machine : Machine) :
    machine.Before (block.execute limits machine).machine :=
  (block.execute_follows (Nat.le_refl limits.steps) (Nat.le_refl limits.lines) machine).after

namespace Executes

variable {limits : Limits}

/-- A part with a step of its own is executed when it is within the limit. -/
theorem ofTick
    {task : Task} {machine : Machine} {next : Machine → Ended}
    (counted : task.Counted)
    (following : machine.steps < limits.steps →
      Executes limits task machine (next machine.stepped)) :
    Executes limits task machine (machine.tick limits next) := by
  rcases Nat.lt_or_ge machine.steps limits.steps with left | exhausted
  · rw [Machine.tick_of_left left]
    exact following left
  · rw [Machine.tick_of_exhausted exhausted]
    exact .spent counted exhausted

/-- A statement that starts with an expression is executed when it is for each of its values. -/
theorem ofEvaluate
    {statement : Statement} {expression : Expression} {machine : Machine}
    {next : Value → Machine → Ended}
    (first : statement.first? = some expression)
    (following : ∀ {value later}, machine.steps < limits.steps →
      machine.stepped.Evaluates limits expression (.ok value) later →
        Executes limits (.statement statement) machine (next value later)) :
    Executes limits (.statement statement) machine
      (machine.tick limits fun machine => machine.evaluate limits expression next) := by
  have counted : Task.Counted (.statement statement) := trivial
  refine ofTick counted fun left => ?_
  rcases machine.stepped.exists_evaluates limits expression with
    ⟨value, later, evaluated⟩ | ⟨fault, later, evaluated⟩
  · rw [evaluated.evaluate_ok]
    exact following left evaluated
  · rw [evaluated.evaluate_error]
    exact .faulted first left evaluated

/--
The turns of a loop are executed when its block is.

The induction is on the turns that are allowed; a turn takes steps, so they stay
enough for the steps that are left.
-/
theorem ofTurn
    (condition : Expression)
    {body : Block}
    (executed : ∀ machine, Executes limits (.block body) machine (body.execute limits machine))
    (allowed : Nat) :
    ∀ machine : Machine, limits.steps - machine.steps ≤ allowed →
      Executes limits (.turns condition body) machine
        (machine.turn limits condition (body.execute limits) allowed) := by
  induction allowed with
  | zero =>
      intro machine enough
      have exhausted : limits.steps ≤ machine.steps :=
        Nat.sub_eq_zero_iff_le.mp (Nat.le_zero.mp enough)
      exact .turnFaulted
        ⟨Expression.evaluate_of_exhausted exhausted machine.environment condition, rfl⟩
  | succ allowed inductionHypothesis =>
      intro machine enough
      rw [Machine.turn_eq enough]
      rcases machine.exists_evaluates limits condition with
        ⟨value, later, evaluated⟩ | ⟨fault, later, evaluated⟩
      · rw [evaluated.evaluate_ok]
        cases truthy : value.isTruthy with
        | false =>
            exact .turnOver evaluated truthy
        | true =>
            have turned := executed later
            have before := body.before_execute limits later
            generalize body.execute limits later = ended at turned before ⊢
            rcases ended with ⟨_ | fault, middle⟩
            · have advanced : machine.steps < middle.steps :=
                Nat.lt_of_lt_of_le evaluated.steps_lt before.steps
              exact .turnAgain evaluated truthy turned
                (inductionHypothesis middle (by omega))
            · exact .turnStopped evaluated truthy turned
      · rw [evaluated.evaluate_error]
        exact .turnFaulted evaluated

end Executes

section

variable (limits : Limits)

mutual

/-- A statement is executed to its computed end. -/
theorem Statement.executes_execute
    (statement : Statement)
    (machine : Machine) :
    Executes limits (.statement statement) machine (statement.execute limits machine) := by
  cases statement with
  | declare type name value span =>
      exact .ofEvaluate rfl fun left evaluated => .declare left evaluated
  | assign name value span =>
      exact .ofEvaluate rfl fun left evaluated => .assign left evaluated
  | print value span =>
      exact .ofEvaluate rfl fun left evaluated => .print left evaluated
  | ifThen condition consequent span =>
      refine .ofEvaluate rfl fun {value later} left evaluated => ?_
      cases truthy : value.isTruthy with
      | false =>
          exact .ifThenSkipped left evaluated truthy
      | true =>
          exact .ifThen left evaluated truthy (consequent.executes_execute later)
  | ifElse condition consequent alternate span =>
      refine .ofEvaluate rfl fun {value later} left evaluated => .ifElse left evaluated ?_
      cases value.isTruthy with
      | false =>
          exact alternate.executes_execute later
      | true =>
          exact consequent.executes_execute later
  | loop condition body span =>
      exact .ofTick trivial fun left =>
        .loop left (.ofTurn condition body.executes_execute _ _ (Nat.le_refl _))

theorem Block.executes_execute
    (block : Block)
    (machine : Machine) :
    Executes limits (.block block) machine (block.execute limits machine) := by
  cases block with
  | mk body span =>
      exact .ofTick trivial fun left => .block left (executes_executeAll body machine.stepped)

theorem executes_executeAll
    (body : List Statement)
    (machine : Machine) :
    Executes limits (.body body) machine (executeAll limits body machine) := by
  cases body with
  | nil =>
      exact .empty
  | cons statement rest =>
      rw [executeAll_cons]
      have executed := statement.executes_execute machine
      generalize statement.execute limits machine = ended at executed ⊢
      rcases ended with ⟨_ | fault, later⟩
      · exact .bodyNext executed (executes_executeAll rest later)
      · exact .bodyStopped executed

end

end

/-- Every part has its computed end by the rules. -/
theorem Task.executes_execute
    (limits : Limits)
    (task : Task)
    (machine : Machine) :
    Executes limits task machine (task.execute limits machine) := by
  cases task with
  | statement statement =>
      exact statement.executes_execute limits machine
  | block block =>
      exact block.executes_execute limits machine
  | body body =>
      exact executes_executeAll limits body machine
  | turns condition body =>
      exact .ofTurn condition (body.executes_execute limits) _ machine (Nat.le_refl _)

namespace Executes

variable {limits : Limits}

/-- A statement that starts with an expression takes a step and evaluates it. -/
theorem execute_of_first
    {statement : Statement} {expression : Expression}
    (first : statement.first? = some expression)
    (machine : Machine) :
    ∃ next : Value → Machine → Ended,
      statement.execute limits machine =
        machine.tick limits fun machine => machine.evaluate limits expression next := by
  cases statement with
  | declare | assign | print | ifThen | ifElse =>
      cases first
      exact ⟨_, rfl⟩
  | loop =>
      cases first

/-- The rules lead to the computed end only. -/
theorem eq_execute
    {task : Task} {machine : Machine} {ended : Ended}
    (executed : Executes limits task machine ended) :
    ended = task.execute limits machine := by
  induction executed with
  | @spent task machine counted exhausted =>
      cases task with
      | statement statement =>
          cases statement <;>
            rw [Task.execute, Statement.execute, Machine.tick_of_exhausted exhausted]
      | block block =>
          rcases block with ⟨body, span⟩
          rw [Task.execute, Block.execute, Machine.tick_of_exhausted exhausted]
      | body | turns =>
          exact counted.elim
  | @faulted statement machine later expression fault first left evaluated =>
      obtain ⟨next, same⟩ := execute_of_first first machine
      rw [Task.execute, same, Machine.tick_of_left left, evaluated.evaluate_error]
  | declare left evaluated | assign left evaluated | print left evaluated =>
      rw [Task.execute, Statement.execute, Machine.tick_of_left left, evaluated.evaluate_ok]
  | ifThen left evaluated truthy executed inductionHypothesis =>
      rw [Task.execute, Statement.execute, Machine.tick_of_left left, evaluated.evaluate_ok,
        if_pos truthy]
      exact inductionHypothesis
  | ifThenSkipped left evaluated falsy =>
      rw [Task.execute, Statement.execute, Machine.tick_of_left left, evaluated.evaluate_ok, falsy]
      rfl
  | @ifElse _ _ _ _ _ _ value _ left evaluated executed inductionHypothesis =>
      rw [Task.execute, Statement.execute, Machine.tick_of_left left, evaluated.evaluate_ok]
      cases truthy : value.isTruthy <;> rw [truthy] at inductionHypothesis <;>
        exact inductionHypothesis
  | loop left turned inductionHypothesis =>
      rw [Task.execute, Statement.execute, Machine.tick_of_left left]
      exact inductionHypothesis
  | turnFaulted evaluated =>
      rw [Task.execute, Machine.turn_eq (Nat.le_refl _), evaluated.evaluate_error]
  | turnOver evaluated falsy =>
      rw [Task.execute, Machine.turn_eq (Nat.le_refl _), evaluated.evaluate_ok, falsy]
      rfl
  | turnStopped evaluated truthy executed inductionHypothesis =>
      rw [Task.execute] at inductionHypothesis
      rw [Task.execute, Machine.turn_eq (Nat.le_refl _), evaluated.evaluate_ok, if_pos truthy,
        ← inductionHypothesis]
      rfl
  | @turnAgain condition body machine later middle value ended evaluated truthy executed turned
      blockHypothesis turnsHypothesis =>
      rw [Task.execute] at blockHypothesis
      have before := body.before_execute limits later
      rw [← blockHypothesis] at before
      have advanced : machine.steps < middle.steps :=
        Nat.lt_of_lt_of_le evaluated.steps_lt before.steps
      have again : Task.execute limits (.turns condition body) machine =
          middle.turn limits condition (body.execute limits) (limits.steps - machine.steps - 1) := by
        rw [Task.execute, Machine.turn_eq (Nat.le_refl _), evaluated.evaluate_ok, if_pos truthy,
          ← blockHypothesis]
        rfl
      rw [turnsHypothesis, again]
      exact Machine.turn_eq_turn (body.before_execute limits) _ _ middle (Nat.le_refl _) (by omega)
  | @block body span machine ended left executed inductionHypothesis =>
      rw [Task.execute, Block.execute, Machine.tick_of_left left]
      exact inductionHypothesis
  | empty =>
      rfl
  | bodyStopped executed inductionHypothesis =>
      rw [Task.execute] at inductionHypothesis
      rw [Task.execute, executeAll_cons, ← inductionHypothesis]
      rfl
  | bodyNext executed following statementHypothesis restHypothesis =>
      rw [Task.execute] at statementHypothesis
      rw [Task.execute, executeAll_cons, ← statementHypothesis]
      exact restHypothesis

end Executes

/-- Every part has one end by the rules, which is the computed one. -/
theorem executes_iff
    {limits : Limits} {task : Task} {machine : Machine} {ended : Ended} :
    Executes limits task machine ended ↔ ended = task.execute limits machine := by
  constructor
  · exact Executes.eq_execute
  · rintro rfl
    exact task.executes_execute limits machine

end Bhasha
