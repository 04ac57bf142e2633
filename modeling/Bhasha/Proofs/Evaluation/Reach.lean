import Bhasha.Proofs.Evaluation.Cost
import Bhasha.Proofs.Evaluation.Steps

namespace Bhasha

/-!
# Places of a run

A run goes from place to place; a place is a machine with the parts that are still to be
executed.  `Reaches` leads from one place to another and keeps a history: the
declarations, assignments and print statements that were completed between the two, the
latest first.  So an invariant of all places is shown for one step.

A run halts where nothing is left or where the next step faults.  Every run comes to such
a place, and what it ends with there is its computed end.
-/

/-- The statement that a part completes with its first step, if it has an effect. -/
def Task.completed : Task → List Statement
  | .statement part => if part.effect?.isSome then [part] else []
  | .block _ | .body _ | .turns .. => []

/-- Steps from some parts and a machine to a place, and the statements that they complete. -/
inductive Reaches (limits : Limits) (tasks : List Task) (machine : Machine) :
    List Statement → List Task → Machine → Prop
  | start :
      Reaches limits tasks machine [] tasks machine
  | step
      {history : List Statement} {task : Task} {parts rest : List Task}
      {middle later : Machine} {effect? : Option Effect}
      (reaches : Reaches limits tasks machine history (task :: rest) middle)
      (step : Step limits task middle effect? parts later) :
      Reaches limits tasks machine (task.completed ++ history) (parts ++ rest) later

/-- A run halts at a place: nothing is left, or the next step faults. -/
inductive Halts (limits : Limits) : List Task → Machine → Ended → Prop
  | done
      {machine : Machine} :
      Halts limits [] machine machine.done
  | stop
      {task : Task} {rest : List Task} {machine later : Machine} {fault : Fault}
      (stops : Stops limits task machine fault later) :
      Halts limits (task :: rest) machine (later.stop fault)

section

variable {limits : Limits} {tasks rest : List Task} {machine later : Machine}
  {history : List Statement} {ended : Ended}

/-- From every place of a run the same end is computed. -/
theorem Reaches.executeEach_eq
    (reaches : Reaches limits tasks machine history rest later) :
    Task.executeEach limits rest later = Task.executeEach limits tasks machine := by
  induction reaches with
  | start =>
      rfl
  | step reaches step inductionHypothesis =>
      rw [← inductionHypothesis, Task.executeEach_append, step.executeEach_eq, Task.executeEach]

/-- A run that halts has its computed end. -/
theorem Halts.eq_executeEach
    (halts : Halts limits tasks machine ended) :
    ended = Task.executeEach limits tasks machine := by
  cases halts with
  | done =>
      rfl
  | stop stops =>
      rw [Task.executeEach_of_stop stops.execute_eq]

/-- Where a run halts, only the steps of the machine change. -/
theorem Halts.sameButSteps
    (halts : Halts limits tasks machine ended) :
    machine.SameButSteps ended.machine := by
  cases halts with
  | done =>
      exact .refl machine
  | stop stops =>
      exact stops.sameButSteps

/-- From a place of a run the parts that remain are performed until the run halts. -/
theorem Reaches.exists_halts
    {effects : List Effect}
    (performs : Performs limits rest later effects ended) :
    ∀ {history : List Statement}, Reaches limits tasks machine history rest later →
      ∃ whole last final, Reaches limits tasks machine whole last final ∧
        Halts limits last final ended := by
  induction performs with
  | done =>
      intro history reaches
      exact ⟨history, _, _, reaches, .done⟩
  | stop stops =>
      intro history reaches
      exact ⟨history, _, _, reaches, .stop stops⟩
  | step step following inductionHypothesis =>
      intro history reaches
      exact inductionHypothesis (reaches.step step)

/-- Every run halts, with its computed end. -/
theorem exists_reaches_halts
    (limits : Limits)
    (tasks : List Task)
    (machine : Machine) :
    ∃ history last final, Reaches limits tasks machine history last final ∧
      Halts limits last final (Task.executeEach limits tasks machine) := by
  obtain ⟨effects, ended, performs⟩ := performable limits tasks machine
  have same := performs.eq_executeEach
  rw [← same]
  exact Reaches.exists_halts performs .start

end

/-- All statements of a part are among some statements. -/
def Task.Within (statements : List Statement) : Task → Prop
  | .statement part => part.parts ⊆ statements
  | .block part => part.parts ⊆ statements
  | .body parts => partsAll parts ⊆ statements
  | .turns condition part => ∃ span, (Statement.loop condition part span).parts ⊆ statements

section

variable {limits : Limits} {statements : List Statement} {task : Task} {machine later : Machine}

/-- What a part completes is among its statements. -/
theorem Task.Within.completed_subset
    (within : task.Within statements) :
    task.completed ⊆ statements := by
  cases task with
  | statement statement =>
      rw [completed]
      split
      · exact List.cons_subset.mpr ⟨within statement.mem_parts, List.nil_subset _⟩
      · exact List.nil_subset _
  | block | body | turns =>
      exact List.nil_subset _

/-- The parts that follow a step have no other statements. -/
theorem Step.within
    {effect? : Option Effect} {parts : List Task}
    (step : Step limits task machine effect? parts later)
    (within : task.Within statements) :
    ∀ part ∈ parts, part.Within statements := by
  cases step with
  | effect | ifThenSkipped | turnOver | empty =>
      exact List.forall_mem_nil _
  | ifThen =>
      exact List.forall_mem_singleton.mpr (List.cons_subset.mp within).2
  | @ifElse _ _ _ _ _ _ value =>
      obtain ⟨consequent, alternate⟩ := List.append_subset.mp (List.cons_subset.mp within).2
      refine List.forall_mem_singleton.mpr ?_
      cases value.isTruthy with
      | false =>
          exact alternate
      | true =>
          exact consequent
  | @loop condition body span =>
      exact List.forall_mem_singleton.mpr ⟨span, within⟩
  | turn =>
      obtain ⟨span, inside⟩ := within
      have body := (List.cons_subset.mp inside).2
      exact List.forall_mem_cons.mpr ⟨body, List.forall_mem_singleton.mpr ⟨span, inside⟩⟩
  | block =>
      exact List.forall_mem_singleton.mpr within
  | next =>
      obtain ⟨statement, others⟩ := List.append_subset.mp within
      exact List.forall_mem_cons.mpr ⟨statement, List.forall_mem_singleton.mpr others⟩

/-- What is left and what was completed are statements of the parts that a run starts with. -/
theorem Reaches.within
    {tasks rest : List Task} {history : List Statement}
    (reaches : Reaches limits tasks machine history rest later)
    (within : ∀ task ∈ tasks, task.Within statements) :
    (∀ task ∈ rest, task.Within statements) ∧ history ⊆ statements := by
  induction reaches with
  | start =>
      exact ⟨within, List.nil_subset _⟩
  | step reaches step inductionHypothesis =>
      obtain ⟨left, completed⟩ := inductionHypothesis
      obtain ⟨first, others⟩ := List.forall_mem_cons.mp left
      exact ⟨List.forall_mem_append.mpr ⟨step.within first, others⟩,
        List.append_subset.mpr ⟨first.completed_subset, completed⟩⟩

end

end Bhasha
