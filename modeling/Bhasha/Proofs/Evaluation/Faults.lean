import Bhasha.Proofs.Evaluation.Reach

namespace Bhasha

/-!
# Where a run faults

An expression that faults has a part that faults itself: the steps are used up there, a
name is not bound, or an operator refuses the values of its operands.  A step of a run
faults in the expression that it evaluates, or for a limit, or because it assigns to a name
that is not bound.
-/

namespace Metered

variable {limit steps : Nat} {fault : Fault}

/-- A fault after a step is the limit or a fault of what follows the step. -/
theorem outcome_of_tick
    {next : Nat → Metered α}
    (faulted : (tick limit steps next).outcome = .error fault) :
    fault = .stepLimitExceeded ∨ (next (steps + 1)).outcome = .error fault := by
  unfold tick at faulted
  split at faulted
  · exact .inr faulted
  · cases faulted
    exact .inl rfl

/-- A fault of two parts in turn is one of the first, or one of the second after a value. -/
theorem outcome_of_andThen
    {first : Metered α} {next : α → Nat → Metered β}
    (faulted : (first.andThen next).outcome = .error fault) :
    first.outcome = .error fault ∨
      ∃ value later, first = ok value later ∧ (next value later).outcome = .error fault := by
  rcases first with ⟨found | value, later⟩
  · cases faulted
    exact .inl rfl
  · exact .inr ⟨value, later, rfl, faulted⟩

end Metered

namespace Expression

/-- An expression itself faults, and not its operands. -/
inductive Faults (limit : Nat) (environment : Environment) : Expression → Fault → Prop
  | spent
      {expression : Expression} :
      Faults limit environment expression .stepLimitExceeded
  | unbound
      {text : String} {span : Span}
      (unbound : environment.get? text = none) :
      Faults limit environment (.name text span) (.undefinedVariable text)
  | refused
      {operator : BinaryOperator} {left right : Expression} {span : Span}
      {leftValue rightValue : Value} {start middle last : Nat} {fault : Fault}
      (leftEvaluated : left.evaluate limit environment start = .ok leftValue middle)
      (rightEvaluated : right.evaluate limit environment middle = .ok rightValue last)
      (refused : operator.apply leftValue rightValue = .error fault) :
      Faults limit environment (.binary operator left right span) fault

/-- An expression that faults has a part that faults itself. -/
theorem exists_faults
    {limit : Nat} {environment : Environment} {fault : Fault}
    (expression : Expression) :
    ∀ {steps : Nat}, (expression.evaluate limit environment steps).outcome = .error fault →
      ∃ part ∈ expression.parts, part.Faults limit environment fault := by
  induction expression with
  | literal value raw span =>
      intro steps faulted
      rw [evaluate, walk_nil, recurse] at faulted
      rcases Metered.outcome_of_tick faulted with rfl | after
      · exact ⟨_, List.mem_singleton_self _, .spent⟩
      · cases after
  | name text span =>
      intro steps faulted
      rw [evaluate, walk_nil, recurse] at faulted
      rcases Metered.outcome_of_tick faulted with rfl | after
      · exact ⟨_, List.mem_singleton_self _, .spent⟩
      · cases found : environment.get? text with
        | none =>
            simp only [Environment.lookup, found] at after
            cases after
            exact ⟨_, List.mem_singleton_self _, .unbound found⟩
        | some value =>
            simp only [Environment.lookup, found] at after
            cases after
  | binary operator left right span leftHypothesis rightHypothesis =>
      intro steps faulted
      rw [evaluate, walk_nil, recurse] at faulted
      rcases Metered.outcome_of_tick faulted with rfl | after
      · exact ⟨_, List.mem_cons_self, .spent⟩
      rw [← walk_nil, ← evaluate] at after
      rcases Metered.outcome_of_andThen after with
        leftFaulted | ⟨leftValue, middle, leftFound, after⟩
      · obtain ⟨part, member, faults⟩ := leftHypothesis leftFaulted
        exact ⟨part, List.mem_cons_of_mem _ (List.mem_append_left _ member), faults⟩
      rw [← walk_nil, ← evaluate] at after
      rcases Metered.outcome_of_andThen after with
        rightFaulted | ⟨rightValue, last, rightFound, refused⟩
      · obtain ⟨part, member, faults⟩ := rightHypothesis rightFaulted
        exact ⟨part, List.mem_cons_of_mem _ (List.mem_append_right _ member), faults⟩
      · exact ⟨_, List.mem_cons_self, .refused leftFound rightFound refused⟩

end Expression

/-- The expression that the first step of a part evaluates, if it evaluates one. -/
def Task.first? : Task → Option Expression
  | .statement part => part.first?
  | .turns condition _ => some condition
  | .block _ | .body _ => none

/-- A step of a run faults for a limit, in its expression, or as it assigns to no bound name. -/
inductive Task.Faults (limits : Limits) (environment : Environment) : Task → Fault → Prop
  | limit
      {task : Task} {fault : Fault}
      (isLimit : fault.IsLimit) :
      Faults limits environment task fault
  | expression
      {task : Task} {expression part : Expression} {fault : Fault}
      (first : task.first? = some expression)
      (member : part ∈ expression.parts)
      (faults : part.Faults limits.steps environment fault) :
      Faults limits environment task fault
  | unbound
      {name : Name} {value : Expression} {span : Span}
      (unbound : environment.get? name.text = none) :
      Faults limits environment (.statement (.assign name value span))
        (.undefinedVariable name.text)

/-- A step faults when the expression that it evaluates does. -/
theorem Task.Faults.ofEvaluates
    {limits : Limits} {environment : Environment} {task : Task} {machine later : Machine}
    {expression : Expression} {fault : Fault}
    (first : task.first? = some expression)
    (evaluated : machine.Evaluates limits expression (.error fault) later)
    (same : machine.environment = environment) :
    task.Faults limits environment fault := by
  subst same
  obtain ⟨part, member, faults⟩ :=
    expression.exists_faults (congrArg Metered.outcome evaluated.result)
  exact .expression first member faults

/-- An assignment that stops has no name to change. -/
theorem Machine.get?_of_assign_stop
    {machine later : Machine} {name : String} {value : Value} {fault : Fault}
    (stopped : machine.assign name value = later.stop fault) :
    fault = .undefinedVariable name ∧ machine.environment.get? name = none := by
  rw [assign, Environment.set?_eq] at stopped
  split at stopped
  case h_1 =>
    cases stopped
  case h_2 unbound =>
    cases stopped
    simpa using unbound

/-- A statement with an effect faults in one of the ways of a step. -/
theorem Statement.faults_of_effect
    {limits : Limits} {statement : Statement} {expression : Expression} {effect : Value → Effect}
    {machine later : Machine} {fault : Fault}
    (atomic : statement.effect? = some (expression, effect))
    (stopped : statement.execute limits machine = later.stop fault) :
    (Task.statement statement).Faults limits machine.environment fault := by
  have executed := (Task.statement statement).executes_execute limits machine
  rw [Task.execute] at executed
  generalize statement.execute limits machine = ended at executed stopped
  cases executed with
  | spent =>
      cases stopped
      exact .limit (.inl rfl)
  | faulted first left evaluated =>
      cases stopped
      exact .ofEvaluates first evaluated rfl
  | declare =>
      cases stopped
  | assign left evaluated =>
      obtain ⟨rfl, unbound⟩ := Machine.get?_of_assign_stop stopped
      rw [evaluated.kept] at unbound
      exact .unbound unbound
  | print left evaluated =>
      rw [Machine.print] at stopped
      split at stopped
      · cases stopped
      · cases stopped
        exact .limit (.inr rfl)
  | ifThen | ifThenSkipped | ifElse | loop =>
      cases atomic

/-- The next step of a run faults for a limit, in its expression, or because of its assignment. -/
theorem Stops.faults
    {limits : Limits} {task : Task} {machine later : Machine} {fault : Fault}
    (stops : Stops limits task machine fault later) :
    task.Faults limits machine.environment fault := by
  cases stops with
  | spent =>
      exact .limit (.inl rfl)
  | faulted first left evaluated =>
      exact .ofEvaluates first evaluated rfl
  | refused atomic executed =>
      exact Statement.faults_of_effect atomic executed
  | turnFaulted evaluated =>
      exact .ofEvaluates rfl evaluated rfl

end Bhasha
