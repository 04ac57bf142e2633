import Bhasha.Proofs.Evaluation.Effects

namespace Bhasha

/-!
# Runs as steps with effects

`Performs` takes a list of parts step by step.  A step either executes a statement
with an effect, which is recorded, or puts other parts in the place of one and changes
the steps of the machine only.  So the machine at the end of a run is the one at its
start with the recorded effects, in their order.

Every list of parts can be performed, and only to its computed end.
-/

/-- The first step of a part, the effect that it has if it has one, and the parts that follow. -/
inductive Step (limits : Limits) : Task → Machine → Option Effect → List Task → Machine → Prop
  | effect
      {statement : Statement} {expression : Expression} {effect : Value → Effect}
      {machine middle later : Machine} {value : Value}
      (atomic : statement.effect? = some (expression, effect))
      (evaluated : machine.stepped.Evaluates limits expression (.ok value) middle)
      (executed : statement.execute limits machine = later.done) :
      Step limits (.statement statement) machine (some (effect value)) [] later
  | ifThen
      {condition : Expression} {consequent : Block} {span : Span}
      {machine later : Machine} {value : Value}
      (left : machine.steps < limits.steps)
      (evaluated : machine.stepped.Evaluates limits condition (.ok value) later)
      (truthy : value.isTruthy = true) :
      Step limits (.statement (.ifThen condition consequent span)) machine none
        [.block consequent] later
  | ifThenSkipped
      {condition : Expression} {consequent : Block} {span : Span}
      {machine later : Machine} {value : Value}
      (left : machine.steps < limits.steps)
      (evaluated : machine.stepped.Evaluates limits condition (.ok value) later)
      (falsy : value.isTruthy = false) :
      Step limits (.statement (.ifThen condition consequent span)) machine none [] later
  | ifElse
      {condition : Expression} {consequent alternate : Block} {span : Span}
      {machine later : Machine} {value : Value}
      (left : machine.steps < limits.steps)
      (evaluated : machine.stepped.Evaluates limits condition (.ok value) later) :
      Step limits (.statement (.ifElse condition consequent alternate span)) machine none
        [.block (if value.isTruthy then consequent else alternate)] later
  | loop
      {condition : Expression} {body : Block} {span : Span} {machine : Machine}
      (left : machine.steps < limits.steps) :
      Step limits (.statement (.loop condition body span)) machine none
        [.turns condition body] machine.stepped
  | turn
      {condition : Expression} {body : Block} {machine later : Machine} {value : Value}
      (evaluated : machine.Evaluates limits condition (.ok value) later)
      (truthy : value.isTruthy = true) :
      Step limits (.turns condition body) machine none
        [.block body, .turns condition body] later
  | turnOver
      {condition : Expression} {body : Block} {machine later : Machine} {value : Value}
      (evaluated : machine.Evaluates limits condition (.ok value) later)
      (falsy : value.isTruthy = false) :
      Step limits (.turns condition body) machine none [] later
  | block
      {body : List Statement} {span : Span} {machine : Machine}
      (left : machine.steps < limits.steps) :
      Step limits (.block (.mk body span)) machine none [.body body] machine.stepped
  | empty
      {machine : Machine} :
      Step limits (.body []) machine none [] machine
  | next
      {statement : Statement} {rest : List Statement} {machine : Machine} :
      Step limits (.body (statement :: rest)) machine none
        [.statement statement, .body rest] machine

/-- The first step of a part faults. -/
inductive Stops (limits : Limits) : Task → Machine → Fault → Machine → Prop
  | spent
      {task : Task} {machine : Machine}
      (counted : task.Counted)
      (exhausted : limits.steps ≤ machine.steps) :
      Stops limits task machine .stepLimitExceeded machine.stepped
  | faulted
      {statement : Statement} {expression : Expression} {machine later : Machine} {fault : Fault}
      (first : statement.first? = some expression)
      (left : machine.steps < limits.steps)
      (evaluated : machine.stepped.Evaluates limits expression (.error fault) later) :
      Stops limits (.statement statement) machine fault later
  | refused
      {statement : Statement} {expression : Expression} {effect : Value → Effect}
      {machine later : Machine} {fault : Fault}
      (atomic : statement.effect? = some (expression, effect))
      (executed : statement.execute limits machine = later.stop fault) :
      Stops limits (.statement statement) machine fault later
  | turnFaulted
      {condition : Expression} {body : Block} {machine later : Machine} {fault : Fault}
      (evaluated : machine.Evaluates limits condition (.error fault) later) :
      Stops limits (.turns condition body) machine fault later

/-- Parts are performed in order, step by step, to their end or to a fault. -/
inductive Performs (limits : Limits) : List Task → Machine → List Effect → Ended → Prop
  | done
      {machine : Machine} :
      Performs limits [] machine [] machine.done
  | stop
      {task : Task} {rest : List Task} {machine later : Machine} {fault : Fault}
      (stops : Stops limits task machine fault later) :
      Performs limits (task :: rest) machine [] (later.stop fault)
  | step
      {task : Task} {parts rest : List Task} {machine later : Machine}
      {effect? : Option Effect} {effects : List Effect} {ended : Ended}
      (step : Step limits task machine effect? parts later)
      (following : Performs limits (parts ++ rest) later effects ended) :
      Performs limits (task :: rest) machine (effect?.toList ++ effects) ended

section

variable {limits : Limits}

/-- A step has its effect and changes nothing else but the steps. -/
theorem Step.sameButSteps
    {task : Task} {machine later : Machine} {effect? : Option Effect} {parts : List Task}
    (step : Step limits task machine effect? parts later) :
    (Effect.applyAll machine effect?.toList).SameButSteps later := by
  cases step with
  | @effect statement expression effect _ middle _ value atomic evaluated executed =>
      rcases statement.execute_of_effect atomic limits machine with
        ⟨fault, last, stopped, -⟩ | ⟨other, last, otherEvaluated, done⟩
      · rw [executed] at stopped
        cases stopped
      · rw [executed, ← evaluated.value_eq otherEvaluated] at done
        cases done
        have same := (Machine.SameButSteps.stepped machine).trans otherEvaluated.kept
        exact same.apply (effect value)
  | ifThen left evaluated | ifThenSkipped left evaluated | ifElse left evaluated =>
      exact (Machine.SameButSteps.stepped machine).trans evaluated.kept
  | loop | block =>
      exact .stepped machine
  | turn evaluated | turnOver evaluated =>
      exact evaluated.kept
  | empty | next =>
      exact .refl machine

/-- A step that faults changes the steps only. -/
theorem Stops.sameButSteps
    {task : Task} {machine later : Machine} {fault : Fault}
    (stops : Stops limits task machine fault later) :
    machine.SameButSteps later := by
  cases stops with
  | spent =>
      exact .stepped machine
  | faulted first left evaluated =>
      exact (Machine.SameButSteps.stepped machine).trans evaluated.kept
  | @refused statement _ _ _ _ _ atomic executed =>
      rcases statement.execute_of_effect atomic limits machine with
        ⟨_, last, stopped, same⟩ | ⟨_, _, -, done⟩
      · rw [executed] at stopped
        cases stopped
        exact same
      · rw [executed] at done
        cases done
  | turnFaulted evaluated =>
      exact evaluated.kept

/-- What is performed ends with the recorded effects, in their order, and other steps. -/
theorem Performs.sameButSteps
    {tasks : List Task} {machine : Machine} {effects : List Effect} {ended : Ended}
    (performs : Performs limits tasks machine effects ended) :
    (Effect.applyAll machine effects).SameButSteps ended.machine := by
  induction performs with
  | done =>
      exact .refl _
  | stop stops =>
      exact stops.sameButSteps
  | @step task parts rest machine later effect? effects ended step following
      inductionHypothesis =>
      have joined :
          Effect.applyAll machine (effect?.toList ++ effects) =
            Effect.applyAll (Effect.applyAll machine effect?.toList) effects :=
        List.foldl_append
      rw [joined]
      exact (step.sameButSteps.applyAll effects).trans inductionHypothesis

end

namespace Task

/-- The computed end of parts that are executed in order. -/
def executeEach (limits : Limits) : List Task → Machine → Ended
  | [], machine => machine.done
  | task :: rest, machine =>
      match task.execute limits machine with
      | ⟨none, machine⟩ => executeEach limits rest machine
      | ended => ended

variable {limits : Limits}

theorem executeEach_of_done
    {task : Task} {machine later : Machine}
    (executed : task.execute limits machine = later.done)
    (rest : List Task) :
    executeEach limits (task :: rest) machine = executeEach limits rest later := by
  rw [executeEach, executed]
  rfl

theorem executeEach_of_stop
    {task : Task} {machine later : Machine} {fault : Fault}
    (executed : task.execute limits machine = later.stop fault)
    (rest : List Task) :
    executeEach limits (task :: rest) machine = later.stop fault := by
  rw [executeEach, executed]
  rfl

/-- An execution is complete, or it stops with a fault. -/
theorem execute_cases
    (limits : Limits)
    (task : Task)
    (machine : Machine) :
    (∃ later : Machine, task.execute limits machine = later.done) ∨
      ∃ (fault : Fault) (later : Machine), task.execute limits machine = later.stop fault := by
  rcases task.execute limits machine with ⟨_ | fault, later⟩
  · exact .inl ⟨later, rfl⟩
  · exact .inr ⟨fault, later, rfl⟩

@[simp] theorem executeEach_singleton (task : Task) (machine : Machine) :
    executeEach limits [task] machine = task.execute limits machine := by
  rcases task.execute_cases limits machine with ⟨later, done⟩ | ⟨fault, later, stopped⟩
  · rw [executeEach_of_done done, done, executeEach]
  · rw [executeEach_of_stop stopped, stopped]

theorem executeEach_append
    (rest : List Task)
    (parts : List Task) :
    ∀ machine : Machine,
      executeEach limits (parts ++ rest) machine =
        match executeEach limits parts machine with
        | ⟨none, later⟩ => executeEach limits rest later
        | ended => ended := by
  induction parts with
  | nil =>
      intro machine
      rfl
  | cons task parts inductionHypothesis =>
      intro machine
      rw [List.cons_append]
      rcases task.execute_cases limits machine with ⟨later, done⟩ | ⟨fault, later, stopped⟩
      · rw [executeEach_of_done done, executeEach_of_done done, inductionHypothesis]
      · rw [executeEach_of_stop stopped, executeEach_of_stop stopped]
        rfl

end Task

section

variable {limits : Limits} {task : Task} {machine later : Machine}

/-- The first step of a part and the parts that follow lead to its computed end. -/
theorem Step.executeEach_eq
    {effect? : Option Effect} {parts : List Task}
    (step : Step limits task machine effect? parts later) :
    Task.executeEach limits parts later = task.execute limits machine := by
  cases step with
  | effect atomic evaluated executed =>
      exact executed.symm
  | @ifThen condition consequent span _ _ _ left evaluated truthy =>
      rw [Task.executeEach_singleton]
      have executed := (Task.block consequent).executes_execute limits later
      exact (Executes.ifThen left evaluated truthy executed).eq_execute
  | ifThenSkipped left evaluated falsy =>
      exact (Executes.ifThenSkipped left evaluated falsy).eq_execute
  | @ifElse condition consequent alternate span _ _ value left evaluated =>
      rw [Task.executeEach_singleton]
      have executed :=
        (Task.block (if value.isTruthy then consequent else alternate)).executes_execute limits
          later
      exact (Executes.ifElse left evaluated executed).eq_execute
  | @loop condition body span _ left =>
      rw [Task.executeEach_singleton]
      have turned := (Task.turns condition body).executes_execute limits machine.stepped
      exact (Executes.loop left turned).eq_execute
  | @turn condition body _ _ _ evaluated truthy =>
      have executed := (Task.block body).executes_execute limits later
      rcases (Task.block body).execute_cases limits later with
        ⟨middle, done⟩ | ⟨fault, last, stopped⟩
      · rw [Task.executeEach_of_done done, Task.executeEach_singleton]
        rw [done] at executed
        have turned := (Task.turns condition body).executes_execute limits middle
        exact (Executes.turnAgain evaluated truthy executed turned).eq_execute
      · rw [Task.executeEach_of_stop stopped]
        rw [stopped] at executed
        exact (Executes.turnStopped evaluated truthy executed).eq_execute
  | turnOver evaluated falsy =>
      exact (Executes.turnOver evaluated falsy).eq_execute
  | @block body span _ left =>
      rw [Task.executeEach_singleton]
      have executed := (Task.body body).executes_execute limits machine.stepped
      exact (Executes.block left executed).eq_execute
  | empty =>
      rfl
  | @next statement rest _ =>
      have executed := (Task.statement statement).executes_execute limits machine
      rcases (Task.statement statement).execute_cases limits machine with
        ⟨middle, done⟩ | ⟨fault, last, stopped⟩
      · rw [Task.executeEach_of_done done, Task.executeEach_singleton]
        rw [done] at executed
        have following := (Task.body rest).executes_execute limits middle
        exact (Executes.bodyNext executed following).eq_execute
      · rw [Task.executeEach_of_stop stopped]
        rw [stopped] at executed
        exact (Executes.bodyStopped executed).eq_execute

/-- A part whose first step faults ends there. -/
theorem Stops.execute_eq
    {fault : Fault}
    (stops : Stops limits task machine fault later) :
    task.execute limits machine = later.stop fault := by
  cases stops with
  | spent counted exhausted =>
      exact (Executes.spent counted exhausted).eq_execute.symm
  | faulted first left evaluated =>
      exact (Executes.faulted first left evaluated).eq_execute.symm
  | refused atomic executed =>
      exact executed
  | turnFaulted evaluated =>
      exact (Executes.turnFaulted evaluated).eq_execute.symm

/-- Parts are performed to their computed end only. -/
theorem Performs.eq_executeEach
    {tasks : List Task} {effects : List Effect} {ended : Ended}
    (performs : Performs limits tasks machine effects ended) :
    ended = Task.executeEach limits tasks machine := by
  induction performs with
  | done =>
      rfl
  | stop stops =>
      rw [Task.executeEach_of_stop stops.execute_eq]
  | step step following inductionHypothesis =>
      rw [inductionHypothesis, Task.executeEach_append, step.executeEach_eq, Task.executeEach]

end

/-- Parts can be performed from a machine, with some effects and to some end. -/
def Performable (limits : Limits) (tasks : List Task) (machine : Machine) : Prop :=
  ∃ effects ended, Performs limits tasks machine effects ended

section

variable {limits : Limits} {task : Task} {machine later : Machine}

theorem Performable.ofStops
    {fault : Fault}
    (stops : Stops limits task machine fault later)
    (rest : List Task) :
    Performable limits (task :: rest) machine :=
  ⟨_, _, .stop stops⟩

theorem Performable.ofStep
    {effect? : Option Effect} {parts rest : List Task}
    (step : Step limits task machine effect? parts later)
    (following : Performable limits (parts ++ rest) later) :
    Performable limits (task :: rest) machine := by
  obtain ⟨effects, ended, performs⟩ := following
  exact ⟨_, ended, .step step performs⟩

/-- A statement with an effect is performed when what follows it is. -/
theorem Performable.ofEffect
    {statement : Statement} {expression : Expression} {effect : Value → Effect}
    {rest : List Task}
    (atomic : statement.effect? = some (expression, effect))
    (following : ∀ later, statement.execute limits machine = Machine.done later →
      Performable limits rest later) :
    Performable limits (.statement statement :: rest) machine := by
  rcases statement.execute_of_effect atomic limits machine with
    ⟨fault, last, stopped, -⟩ | ⟨value, middle, evaluated, done⟩
  · exact .ofStops (.refused atomic stopped) rest
  · exact .ofStep (.effect atomic evaluated done) (following _ done)

/-- A part that has an end is performed when what follows it is. -/
theorem Executes.performable
    {ended : Ended}
    (executed : Executes limits task machine ended) :
    ∀ {rest : List Task},
      (∀ later, ended = Machine.done later → Performable limits rest later) →
      Performable limits (task :: rest) machine := by
  induction executed with
  | spent counted exhausted =>
      intro rest following
      exact .ofStops (.spent counted exhausted) rest
  | faulted first left evaluated =>
      intro rest following
      exact .ofStops (.faulted first left evaluated) rest
  | @declare type name expression span machine last value left evaluated =>
      intro rest following
      have rule : Executes limits (.statement (.declare type name expression span)) machine _ :=
        .declare left evaluated
      exact .ofEffect rfl fun later executed => following later (rule.eq_execute.trans executed)
  | @assign name expression span machine last value left evaluated =>
      intro rest following
      have rule : Executes limits (.statement (.assign name expression span)) machine _ :=
        .assign left evaluated
      exact .ofEffect rfl fun later executed => following later (rule.eq_execute.trans executed)
  | @print expression span machine last value left evaluated =>
      intro rest following
      have rule : Executes limits (.statement (.print expression span)) machine _ :=
        .print left evaluated
      exact .ofEffect rfl fun later executed => following later (rule.eq_execute.trans executed)
  | ifThen left evaluated truthy executed inductionHypothesis =>
      intro rest following
      exact .ofStep (.ifThen left evaluated truthy) (inductionHypothesis following)
  | ifThenSkipped left evaluated falsy =>
      intro rest following
      exact .ofStep (.ifThenSkipped left evaluated falsy) (following _ rfl)
  | ifElse left evaluated executed inductionHypothesis =>
      intro rest following
      exact .ofStep (.ifElse left evaluated) (inductionHypothesis following)
  | loop left turned inductionHypothesis =>
      intro rest following
      exact .ofStep (.loop left) (inductionHypothesis following)
  | turnFaulted evaluated =>
      intro rest following
      exact .ofStops (.turnFaulted evaluated) rest
  | turnOver evaluated falsy =>
      intro rest following
      exact .ofStep (.turnOver evaluated falsy) (following _ rfl)
  | turnStopped evaluated truthy executed inductionHypothesis =>
      intro rest following
      exact .ofStep (.turn evaluated truthy) (inductionHypothesis nofun)
  | turnAgain evaluated truthy executed turned blockHypothesis turnsHypothesis =>
      intro rest following
      refine .ofStep (.turn evaluated truthy) (blockHypothesis ?_)
      rintro _ ⟨⟩
      exact turnsHypothesis following
  | block left executed inductionHypothesis =>
      intro rest following
      exact .ofStep (.block left) (inductionHypothesis following)
  | empty =>
      intro rest following
      exact .ofStep .empty (following _ rfl)
  | bodyStopped executed inductionHypothesis =>
      intro rest following
      exact .ofStep .next (inductionHypothesis nofun)
  | bodyNext executed later statementHypothesis restHypothesis =>
      intro rest following
      refine .ofStep .next (statementHypothesis ?_)
      rintro _ ⟨⟩
      exact restHypothesis following

/-- Every list of parts can be performed. -/
theorem performable (limits : Limits) (tasks : List Task) :
    ∀ machine : Machine, Performable limits tasks machine := by
  induction tasks with
  | nil =>
      exact fun machine => ⟨[], _, .done⟩
  | cons task rest inductionHypothesis =>
      intro machine
      exact (task.executes_execute limits machine).performable fun later _ =>
        inductionHypothesis later

end

/--
Expressions are pure, and statements are atomic.

An expression changes the steps only.  A declaration, an assignment or a print statement
changes the steps only when it faults, and has its one effect otherwise.  A list of
statements can be performed step by step, and however it is performed, it comes to its
computed end with the recorded effects in their order, and keeps the lines before it.
-/
theorem Machine.executeAll_effects (limits : Limits) (machine : Machine) :
    (∀ expression, ∃ later, machine.SameButSteps later ∧
      ((∃ value, ∀ next, machine.evaluate limits expression next = next value later) ∨
        ∃ fault, ∀ next, machine.evaluate limits expression next = later.stop fault)) ∧
    (∀ {statement : Statement} {expression effect},
      statement.effect? = some (expression, effect) →
        (∃ fault later, statement.execute limits machine = Machine.stop later fault ∧
          machine.SameButSteps later) ∨
        ∃ value middle later, machine.stepped.Evaluates limits expression (.ok value) middle ∧
          statement.execute limits machine = Machine.done later ∧
          ((effect value).apply machine).SameButSteps later ∧
          (effect value).Changes machine later) ∧
    (∀ body,
      (∃ effects ended, Performs limits [.body body] machine effects ended) ∧
      ∀ {effects ended}, Performs limits [.body body] machine effects ended →
        ended = executeAll limits body machine ∧
          (Effect.applyAll machine effects).SameButSteps ended.machine ∧
          machine.output.toList <+: ended.machine.output.toList) := by
  refine ⟨fun expression => ?_, fun {statement expression effect} atomic => ?_, fun body => ?_⟩
  · rcases machine.exists_evaluates limits expression with
      ⟨value, later, evaluated⟩ | ⟨fault, later, evaluated⟩
    · exact ⟨later, evaluated.kept, .inl ⟨value, evaluated.evaluate_ok⟩⟩
    · exact ⟨later, evaluated.kept, .inr ⟨fault, evaluated.evaluate_error⟩⟩
  · refine (statement.execute_of_effect atomic limits machine).imp_right ?_
    rintro ⟨value, middle, evaluated, done⟩
    have same := (Machine.SameButSteps.stepped machine).trans evaluated.kept
    have applied := same.apply (effect value)
    exact ⟨value, middle, _, evaluated, done, applied, Effect.changes_of_apply applied⟩
  · refine ⟨performable limits [.body body] machine, fun {effects ended} performs => ?_⟩
    have kept := performs.sameButSteps
    have computed := performs.eq_executeEach
    rw [Task.executeEach_singleton] at computed
    refine ⟨computed, kept, ?_⟩
    rw [kept.output]
    exact Effect.prefix_output_applyAll effects machine

/-- A print statement is performed with the effect of its line. -/
theorem Machine.executeAll_effects_line :
    let line : Expression := .literal (.string "on") "" (.point .first)
    let limits : Limits := ⟨2, 1⟩
    (Statement.print line (.point .first)).effect? = some (line, fun value => .line value.display) ∧
      (Effect.line "on").Changes .initial ⟨.empty, 2, #["on"]⟩ ∧
      Performs limits [.body [.print line (.point .first)]] .initial [.line "on"]
        (Machine.done ⟨.empty, 2, #["on"]⟩) ∧
      Machine.done ⟨.empty, 2, #["on"]⟩ =
        executeAll limits [.print line (.point .first)] .initial := by
  intro line limits
  have evaluated :
      Machine.initial.stepped.Evaluates limits line (.ok (.string "on")) ⟨.empty, 2, #[]⟩ :=
    ⟨rfl, rfl⟩
  have executed :
      (Statement.print line (.point .first)).execute limits .initial =
        Machine.done ⟨.empty, 2, #["on"]⟩ :=
    rfl
  have atomic :
      (Statement.print line (.point .first)).effect? =
        some (line, fun value => .line value.display) :=
    rfl
  have printed :
      Step limits (.statement (.print line (.point .first))) .initial (some (.line "on")) []
        ⟨.empty, 2, #["on"]⟩ :=
    .effect atomic evaluated executed
  have performs :
      Performs limits [.body [.print line (.point .first)]] .initial [.line "on"]
        (Machine.done ⟨.empty, 2, #["on"]⟩) :=
    .step .next (.step printed (.step .empty .done))
  obtain ⟨-, statements, bodies⟩ := Machine.executeAll_effects limits .initial
  refine ⟨atomic, ?_, performs, ((bodies _).2 performs).1⟩
  rcases statements atomic with
    ⟨fault, later, stopped, -⟩ | ⟨value, middle, later, otherEvaluated, done, -, changes⟩
  · rw [executed] at stopped
    cases stopped
  · rw [executed] at done
    cases done
    rw [← evaluated.value_eq otherEvaluated] at changes
    exact changes

end Bhasha
