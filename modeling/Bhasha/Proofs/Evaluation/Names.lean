import Bhasha.Proofs.Evaluation.Faults
import Bhasha.Proofs.Evaluation.Types

namespace Bhasha

/-!
# The names of a run

There is one namespace, and it only grows.  A name is bound at a place of a run exactly if
it was bound at the start or a declaration of it was completed on the way: nothing unbinds
a name, and an assignment needs a name that is bound.  So a run faults for a name that is
not defined only where no declaration of it was completed, and never after a declaration
of it at the top of the program.
-/

namespace Environment

/-- A name is bound. -/
def Binds (environment : Environment) (name : String) : Prop :=
  (environment.get? name).isSome = true

theorem not_binds_iff
    {environment : Environment} {name : String} :
    ¬ environment.Binds name ↔ environment.get? name = none := by
  simp [Binds]

/-- After a definition the defined name is bound, and so are the names from before. -/
theorem binds_define_iff
    {environment : Environment} {defined name : String} {value : Value} :
    (environment.define defined value).Binds name ↔ environment.Binds name ∨ defined = name := by
  rw [Binds, get?_define]
  split
  case isTrue same =>
    simp [same]
  case isFalse other =>
    simp [other, Binds]

end Environment

/-- The name that a statement declares, if it is a declaration. -/
def Statement.declared? : Statement → Option String
  | .declare _ name _ _ => some name.text
  | .assign .. | .print .. | .ifThen .. | .ifElse .. | .loop .. => none

/-- Some statement declares a name. -/
def Declared (name : String) (statements : List Statement) : Prop :=
  ∃ statement ∈ statements, statement.declared? = some name

theorem declared_append_iff
    {name : String} {first second : List Statement} :
    Declared name (first ++ second) ↔ Declared name first ∨ Declared name second := by
  simp [Declared, or_and_right, exists_or]

theorem declared_singleton_iff
    {name : String} {statement : Statement} :
    Declared name [statement] ↔ statement.declared? = some name := by
  simp [Declared]

theorem not_declared_nil (name : String) :
    ¬ Declared name [] := by
  simp [Declared]

section

variable {limits : Limits} {machine later : Machine}

/-- An assignment that is completed has bound a name that was bound before. -/
theorem Machine.binds_of_assign_done
    {name : String} {value : Value}
    (done : machine.assign name value = later.done) :
    machine.environment.Binds name ∧ later = machine.define name value := by
  rw [assign, Environment.set?_eq] at done
  split at done
  case h_1 environment set =>
    obtain ⟨bound, same⟩ := Option.ite_none_right_eq_some.mp set
    cases same
    cases done
    exact ⟨bound, rfl⟩
  case h_2 =>
    cases done

/-- A completed statement with an effect binds the name that it declares, and no other. -/
theorem Statement.binds_of_effect
    {statement : Statement} {expression : Expression} {effect : Value → Effect}
    (atomic : statement.effect? = some (expression, effect))
    (executed : statement.execute limits machine = later.done)
    (name : String) :
    later.environment.Binds name ↔
      machine.environment.Binds name ∨ statement.declared? = some name := by
  have rules := (Task.statement statement).executes_execute limits machine
  rw [Task.execute] at rules
  generalize statement.execute limits machine = ended at rules executed
  cases rules with
  | declare left evaluated =>
      cases executed
      rw [Machine.define, Environment.binds_define_iff, evaluated.kept]
      simp [declared?, Machine.stepped]
  | @assign target expression span _ middle value left evaluated =>
      obtain ⟨bound, rfl⟩ := Machine.binds_of_assign_done executed
      have same : middle.environment = machine.environment := by
        rw [evaluated.kept]
        rfl
      rw [same] at bound
      rw [Machine.define, Environment.binds_define_iff, same]
      -- The assigned name was bound before, so it is no new one.
      constructor
      · rintro (before | rfl)
        · exact .inl before
        · exact .inl bound
      · rintro (before | declared)
        · exact .inl before
        · cases declared
  | print left evaluated =>
      rw [Machine.print] at executed
      split at executed
      · cases executed
        rw [evaluated.kept]
        simp [declared?, Machine.stepped]
      · cases executed
  | spent | faulted =>
      cases executed
  | ifThen | ifThenSkipped | ifElse | loop =>
      cases atomic

/-- A step binds the names that it declares, and no other. -/
theorem Step.binds_iff
    {task : Task} {effect? : Option Effect} {parts : List Task}
    (step : Step limits task machine effect? parts later)
    (name : String) :
    later.environment.Binds name ↔
      machine.environment.Binds name ∨ Declared name task.completed := by
  have kept := step.sameButSteps
  cases step with
  | effect atomic evaluated executed =>
      rw [Statement.binds_of_effect atomic executed, Task.completed, if_pos (by simp [atomic]),
        declared_singleton_iff]
  | ifThen | ifThenSkipped | ifElse | loop | turn | turnOver | block | empty | next =>
      rw [kept.environment]
      simp [Task.completed, Statement.effect?, not_declared_nil, Effect.applyAll]

/-- The names that are bound at a place were bound at the start or are declared by then. -/
theorem Reaches.binds_iff
    {tasks rest : List Task} {history : List Statement}
    (reaches : Reaches limits tasks machine history rest later)
    (name : String) :
    later.environment.Binds name ↔ machine.environment.Binds name ∨ Declared name history := by
  induction reaches with
  | start =>
      simp [not_declared_nil]
  | step reaches step inductionHypothesis =>
      rw [step.binds_iff, inductionHypothesis, declared_append_iff, or_assoc]
      exact or_congr_right or_comm

end

/-- An operator does not fault for a name. -/
theorem BinaryOperator.apply_ne_undefinedVariable
    (operator : BinaryOperator)
    (left right : Value)
    (name : String) :
    operator.apply left right ≠ .error (.undefinedVariable name) := by
  intro faulted
  have typed := operator.map_type_apply left right
  rw [faulted] at typed
  generalize left.type = leftType, right.type = rightType at typed
  cases operator <;> cases leftType <;> cases rightType <;> cases typed

/-- A step faults for a name only if the name is not bound. -/
theorem Task.Faults.not_binds
    {limits : Limits} {environment : Environment} {task : Task} {name : String}
    (faults : task.Faults limits environment (.undefinedVariable name)) :
    ¬ environment.Binds name := by
  rw [Environment.not_binds_iff]
  cases faults with
  | limit isLimit =>
      simp [Fault.IsLimit] at isLimit
  | expression first member faults =>
      cases faults with
      | unbound unbound =>
          exact unbound
      | refused leftEvaluated rightEvaluated refused =>
          exact absurd refused (BinaryOperator.apply_ne_undefinedVariable _ _ _ _)
  | unbound unbound =>
      exact unbound

/-- A run that halts for a name does so at a place where the name is not bound. -/
theorem Halts.not_binds
    {limits : Limits} {tasks : List Task} {machine : Machine} {ended : Ended} {name : String}
    (halts : Halts limits tasks machine ended)
    (faulted : ended.fault = some (.undefinedVariable name)) :
    ¬ machine.environment.Binds name := by
  cases halts with
  | done =>
      cases faulted
  | stop stops =>
      cases faulted
      exact stops.faults.not_binds

/-- Statements are executed in two parts: the first ones, and then the rest. -/
theorem executeAll_append
    (limits : Limits)
    (first rest : List Statement)
    (machine : Machine) :
    executeAll limits (first ++ rest) machine =
      (executeAll limits first machine).andThen (executeAll limits rest) := by
  induction first generalizing machine with
  | nil =>
      rfl
  | cons statement others inductionHypothesis =>
      rw [List.cons_append, executeAll_cons, executeAll_cons]
      rcases statement.execute limits machine with ⟨_ | fault, later⟩
      · exact inductionHypothesis later
      · rfl

theorem executeAll_singleton (limits : Limits) (statement : Statement) (machine : Machine) :
    executeAll limits [statement] machine = statement.execute limits machine := by
  rw [executeAll_cons]
  rcases statement.execute limits machine with ⟨_ | fault, later⟩ <;> rfl

/-- A name that is bound is no fault of statements. -/
theorem executeAll_fault_ne_of_binds
    {limits : Limits} {machine : Machine} {name : String}
    (bound : machine.environment.Binds name)
    (body : List Statement) :
    (executeAll limits body machine).fault ≠ some (.undefinedVariable name) := by
  intro faulted
  obtain ⟨history, rest, later, reaches, halts⟩ := exists_reaches_halts limits [.body body] machine
  rw [Task.executeEach_singleton] at halts
  exact halts.not_binds faulted ((reaches.binds_iff name).mpr (.inl bound))

/-- Statements that end with a declaration and are completed have bound its name. -/
theorem binds_of_executeAll_declared
    {limits : Limits} {machine later : Machine} {declaration : Statement} {name : String}
    (declared : declaration.declared? = some name)
    (before : List Statement)
    (done : executeAll limits (before ++ [declaration]) machine = later.done) :
    later.environment.Binds name := by
  rw [executeAll_append] at done
  generalize executeAll limits before machine = first at done
  rcases first with ⟨_ | fault, middle⟩
  · have executed : declaration.execute limits middle = later.done := by
      rw [← executeAll_singleton]
      exact done
    cases declaration with
    | declare =>
        exact (Statement.binds_of_effect rfl executed name).mpr (.inr declared)
    | assign | print | ifThen | ifElse | loop =>
        cases declared
  · cases done

/--
After a declaration at the top no statement faults for its name.

If the statements fault for it, those up to the declaration have the same end.
-/
theorem executeAll_of_declared
    {limits : Limits} {machine : Machine} {declaration : Statement} {name : String}
    (declared : declaration.declared? = some name)
    (before after : List Statement)
    (faulted : (executeAll limits (before ++ declaration :: after) machine).fault =
      some (.undefinedVariable name)) :
    executeAll limits (before ++ [declaration]) machine =
      executeAll limits (before ++ declaration :: after) machine := by
  have whole :
      executeAll limits (before ++ declaration :: after) machine =
        (executeAll limits (before ++ [declaration]) machine).andThen
          (executeAll limits after) := by
    rw [List.append_cons, executeAll_append]
  rw [whole] at faulted ⊢
  rcases executed : executeAll limits (before ++ [declaration]) machine with ⟨_ | fault, later⟩
  · rw [executed] at faulted
    have bound := binds_of_executeAll_declared declared before executed
    exact absurd faulted (executeAll_fault_ne_of_binds bound after)
  · rfl

/--
The names of a run only grow, and only by declarations that are executed.

On the way from one place to another no name is unbound, and a name that is newly bound is
one that a declaration completed on the way declares; an assignment binds none.  From the
start of a list of statements, what is completed are statements of the list, those inside
blocks included.  Every execution of it halts, with its computed end; if that is a fault
for a name, the name was not bound at the start and no declaration of it was completed.
And a list with a declaration at its top faults for the declared name only if the
statements up to the declaration do, with the same end.
-/
theorem executeAll_names (limits : Limits) (machine : Machine) (body : List Statement) :
    (∀ {tasks rest history start later}, Reaches limits tasks start history rest later →
      ∀ name, later.environment.Binds name ↔
        start.environment.Binds name ∨ Declared name history) ∧
    (∀ {history rest later}, Reaches limits [.body body] machine history rest later →
      history ⊆ partsAll body ∧
        ∀ {ended}, Halts limits rest later ended →
          ended = executeAll limits body machine ∧
            ended.machine.environment = later.environment ∧
            ∀ name, ended.fault = some (.undefinedVariable name) →
              ¬ machine.environment.Binds name ∧ ¬ Declared name history) ∧
    (∃ history rest later, Reaches limits [.body body] machine history rest later ∧
      Halts limits rest later (executeAll limits body machine)) ∧
    ∀ before declaration after name, body = before ++ declaration :: after →
      declaration.declared? = some name →
        (executeAll limits body machine).fault = some (.undefinedVariable name) →
          executeAll limits (before ++ [declaration]) machine = executeAll limits body machine := by
  refine ⟨fun reaches => reaches.binds_iff, fun {history rest later} reaches => ?_, ?_, ?_⟩
  · have inside : ∀ task ∈ [Task.body body], task.Within (partsAll body) :=
      List.forall_mem_singleton.mpr (List.Subset.refl (partsAll body))
    refine ⟨(reaches.within inside).2, fun {ended} halts => ?_⟩
    have computed := halts.eq_executeEach
    rw [reaches.executeEach_eq, Task.executeEach_singleton] at computed
    refine ⟨computed, halts.sameButSteps.environment, fun name faulted => ?_⟩
    have notBound := halts.not_binds faulted
    rw [reaches.binds_iff] at notBound
    exact not_or.mp notBound
  · have halts := exists_reaches_halts limits [.body body] machine
    rw [Task.executeEach_singleton] at halts
    exact halts
  · rintro before declaration after name rfl declared faulted
    exact executeAll_of_declared declared before after faulted

/-- Statements that declare a name in a block, print another name, and declare that one too late. -/
def lateDeclaration : List Statement :=
  let span := Span.point .first
  let one : Expression := .literal (.number 1.0) "1" span
  [.ifThen one (.mk [.declare .integer ⟨"b", span⟩ one span] span) span,
    .print (.name "a" span) span,
    .declare .integer ⟨"a", span⟩ one span,
    .print (.name "a" span) span]

/-- The list `lateDeclaration` faults for its second name after the first one is declared. -/
theorem executeAll_names_lateDeclaration :
    (executeAll .standard lateDeclaration .initial).fault = some (.undefinedVariable "a") ∧
      (∃ history rest later, Reaches .standard [.body lateDeclaration] .initial history rest later ∧
        history ⊆ partsAll lateDeclaration ∧ Declared "b" history ∧ ¬ Declared "a" history) ∧
      executeAll .standard (lateDeclaration.take 3) .initial =
        executeAll .standard lateDeclaration .initial := by
  have faulted :
      (executeAll .standard lateDeclaration .initial).fault = some (.undefinedVariable "a") :=
    rfl
  have bound :
      (executeAll .standard lateDeclaration .initial).machine.environment.Binds "b" :=
    rfl
  obtain ⟨names, places, ⟨history, rest, later, reaches, halts⟩, top⟩ :=
    executeAll_names .standard .initial lateDeclaration
  obtain ⟨inside, ends⟩ := places reaches
  obtain ⟨-, same, faults⟩ := ends halts
  refine ⟨faulted, ⟨history, rest, later, reaches, inside, ?_, (faults "a" faulted).2⟩, ?_⟩
  · rw [same, names reaches] at bound
    rcases bound with before | declared
    · cases before
    · exact declared
  · exact top (lateDeclaration.take 2) _ _ _ rfl rfl faulted

end Bhasha
