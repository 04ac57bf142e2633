import Bhasha.Proofs.Evaluation.Recursion
import Bhasha.Proofs.Evaluation.Rules

namespace Bhasha

/-!
# Runs end within their limits

A step beyond the limit is counted and faults at once, and nothing takes a step
after a fault.  So the number of steps tells whether the limit stopped a part:
`Metered.Within` says so of an expression and `Ended.Within` of all other parts,
the latter by induction on the rules of execution.
-/

/-- An operator faults for the types of its operands only. -/
theorem BinaryOperator.not_isLimit_of_apply
    {operator : BinaryOperator} {left right : Value} {fault : Fault}
    (faulted : operator.apply left right = .error fault) :
    ¬ fault.IsLimit := by
  have arithmetic {operation : Float → Float → Float}
      (faulted : Value.arithmetic operator operation left right = .error fault) :
      ¬ fault.IsLimit := by
    unfold Value.arithmetic at faulted
    split at faulted <;> cases faulted
    simp [Fault.IsLimit]
  have comparison {numbers : Float → Float → Bool} {texts : String → String → Bool}
      (faulted : Value.compare numbers texts left right = .error fault) :
      ¬ fault.IsLimit := by
    unfold Value.compare at faulted
    split at faulted <;> cases faulted
    simp [Fault.IsLimit]
  cases operator with
  | equal | notEqual | add =>
      cases faulted
  | less | greater | lessOrEqual | greaterOrEqual =>
      exact comparison faulted
  | subtract | multiply | divide | modulo =>
      exact arithmetic faulted

namespace Metered

/-- A result within a limit on steps: it is beyond the limit by one step exactly if that stopped it. -/
structure Within (limit : Nat) (result : Metered α) : Prop where
  steps : result.steps ≤ limit + 1
  spent : result.outcome = .error .stepLimitExceeded ↔ result.steps = limit + 1
  printsNothing : result.outcome ≠ .error .outputLimitExceeded

namespace Within

variable {limit steps : Nat}

/-- A result that no limit stopped takes no step beyond it. -/
theorem ofNoLimit
    {outcome : Except Fault α}
    (within : steps ≤ limit)
    (noLimit : ∀ fault, outcome = .error fault → ¬ fault.IsLimit) :
    Within limit (⟨outcome, steps⟩ : Metered α) where
  steps := Nat.le_succ_of_le within
  spent := by
    have fewer : steps ≠ limit + 1 := Nat.ne_of_lt (Nat.lt_succ_of_le within)
    exact iff_of_false (fun stopped => noLimit _ stopped (.inl rfl)) fewer
  printsNothing stopped := noLimit _ stopped (.inr rfl)

theorem ok
    {value : α}
    (within : steps ≤ limit) :
    Within limit (Metered.ok value steps) :=
  .ofNoLimit within nofun

/-- A value is found within the limit. -/
theorem le_of_ok
    {value : α}
    (within : Within limit (⟨.ok value, steps⟩ : Metered α)) :
    steps ≤ limit := by
  have fewer : steps ≠ limit + 1 := fun same => nomatch within.spent.mpr same
  exact Nat.le_of_lt_succ (Nat.lt_of_le_of_ne within.steps fewer)

theorem andThen
    {first : Metered α} {next : α → Nat → Metered β}
    (within : Within limit first)
    (following : ∀ value steps, steps ≤ limit → Within limit (next value steps)) :
    Within limit (first.andThen next) := by
  rcases first with ⟨fault | value, steps⟩
  · obtain ⟨steps, spent, printsNothing⟩ := within
    refine ⟨steps, ?_, ?_⟩
    · simpa [Metered.andThen] using spent
    · simpa [Metered.andThen] using printsNothing
  · exact following value steps within.le_of_ok

/-- A step within the limit is taken, and the one beyond it faults. -/
theorem tick
    {next : Nat → Metered α}
    (within : steps ≤ limit)
    (following : steps + 1 ≤ limit → Within limit (next (steps + 1))) :
    Within limit (Metered.tick limit steps next) := by
  unfold Metered.tick
  by_cases left : steps < limit
  · rw [if_pos left]
    exact following left
  · have exhausted : steps = limit := Nat.le_antisymm within (Nat.not_lt.mp left)
    rw [if_neg left, exhausted]
    exact ⟨Nat.le_refl _, iff_of_true rfl rfl, nofun⟩

end Within

end Metered

namespace Expression

open Metered

/-- An evaluation that starts within the limit ends within it. -/
theorem recurse_within
    {limit : Nat}
    (environment : Environment)
    (expression : Expression) :
    ∀ {steps : Nat}, steps ≤ limit →
      Within limit (expression.recurse limit environment steps) := by
  induction expression with
  | literal value raw span =>
      intro steps within
      exact .tick within .ok
  | name text span =>
      intro steps within
      refine .tick within fun left => .ofNoLimit left fun fault faulted => ?_
      unfold Environment.lookup at faulted
      split at faulted <;> cases faulted
      simp [Fault.IsLimit]
  | binary operator left right span leftHypothesis rightHypothesis =>
      intro steps within
      refine .tick within fun left => (leftHypothesis left).andThen fun leftValue steps left => ?_
      refine (rightHypothesis left).andThen fun rightValue steps left => ?_
      exact .ofNoLimit left fun fault faulted => BinaryOperator.not_isLimit_of_apply faulted

end Expression

namespace Machine

/-- The steps and lines of a machine that no limit stopped. -/
structure Within (limits : Limits) (machine : Machine) : Prop where
  steps : machine.steps ≤ limits.steps
  lines : machine.output.size ≤ limits.lines

theorem Within.stepped
    {limits : Limits} {machine : Machine}
    (within : machine.Within limits)
    (left : machine.steps < limits.steps) :
    machine.stepped.Within limits :=
  ⟨left, within.lines⟩

end Machine

namespace Ended

/-- The end of an execution under limits: its steps and lines tell which of them stopped it. -/
structure Within (limits : Limits) (ended : Ended) : Prop where
  steps : ended.machine.steps ≤ limits.steps + 1
  lines : ended.machine.output.size ≤ limits.lines
  spent : ended.fault = some .stepLimitExceeded ↔ ended.machine.steps = limits.steps + 1
  full : ended.fault = some .outputLimitExceeded → ended.machine.output.size = limits.lines

namespace Within

variable {limits : Limits} {machine : Machine}

/-- An execution that comes to its end is not stopped by a limit. -/
theorem machine_within
    (within : machine.done.Within limits) :
    machine.Within limits := by
  have fewer : machine.steps ≠ limits.steps + 1 := fun same => nomatch within.spent.mpr same
  exact ⟨Nat.le_of_lt_succ (Nat.lt_of_le_of_ne within.steps fewer), within.lines⟩

/-- A fault that is no limit, or the end, leaves a machine within the limits. -/
theorem ofNoLimit
    {fault : Option Fault}
    (within : machine.Within limits)
    (noLimit : ∀ found, fault = some found → ¬ found.IsLimit) :
    Ended.Within limits ⟨fault, machine⟩ where
  steps := Nat.le_succ_of_le within.steps
  lines := within.lines
  spent := by
    have fewer : machine.steps ≠ limits.steps + 1 :=
      Nat.ne_of_lt (Nat.lt_succ_of_le within.steps)
    exact iff_of_false (fun stopped => noLimit _ stopped (.inl rfl)) fewer
  full stopped := absurd (.inr rfl) (noLimit _ stopped)

theorem done
    (within : machine.Within limits) :
    machine.done.Within limits :=
  .ofNoLimit within nofun

end Within

end Ended

namespace Machine

variable {limits : Limits} {machine later : Machine} {expression : Expression}

namespace Evaluates

theorem metered_within
    {outcome : Except Fault Value}
    (evaluated : machine.Evaluates limits expression outcome later)
    (within : machine.Within limits) :
    Metered.Within limits.steps ⟨outcome, later.steps⟩ := by
  rw [← evaluated.result, Expression.evaluate, Expression.walk_eq_recurse_andThen]
  exact (Expression.recurse_within machine.environment expression within.steps).andThen
    fun _ _ left => .ok left

theorem output_eq
    {outcome : Except Fault Value}
    (evaluated : machine.Evaluates limits expression outcome later) :
    later.output = machine.output := by
  rw [evaluated.kept]

/-- A value is found within the limits. -/
theorem within_of_ok
    {value : Value}
    (evaluated : machine.Evaluates limits expression (.ok value) later)
    (within : machine.Within limits) :
    later.Within limits := by
  refine ⟨(evaluated.metered_within within).le_of_ok, ?_⟩
  rw [evaluated.output_eq]
  exact within.lines

/-- A fault of an expression stops the execution within the limits. -/
theorem stop_within
    {fault : Fault}
    (evaluated : machine.Evaluates limits expression (.error fault) later)
    (within : machine.Within limits) :
    (later.stop fault).Within limits := by
  obtain ⟨steps, spent, printsNothing⟩ := evaluated.metered_within within
  refine ⟨steps, ?_, ?_, ?_⟩
  · rw [Machine.stop, evaluated.output_eq]
    exact within.lines
  · simpa [Machine.stop] using spent
  · intro stopped
    cases stopped
    exact absurd rfl printsNothing

end Evaluates

theorem Within.stop_stepped
    (within : machine.Within limits)
    (exhausted : limits.steps ≤ machine.steps) :
    (machine.stepped.stop .stepLimitExceeded).Within limits := by
  have all : machine.stepped.steps = limits.steps + 1 :=
    congrArg (· + 1) (Nat.le_antisymm within.steps exhausted)
  exact ⟨Nat.le_of_eq all, within.lines, iff_of_true rfl all, nofun⟩

theorem Within.assign
    (within : machine.Within limits)
    (name : String)
    (value : Value) :
    (machine.assign name value).Within limits := by
  unfold Machine.assign
  split
  · exact .done ⟨within.steps, within.lines⟩
  · refine .ofNoLimit within fun found same => ?_
    cases same
    simp [Fault.IsLimit]

/-- A line is printed while there is room for it; a full output stops the execution. -/
theorem Within.print
    (within : machine.Within limits)
    (value : Value) :
    (machine.print limits value).Within limits := by
  unfold Machine.print
  by_cases room : machine.output.size < limits.lines
  · rw [if_pos room]
    refine .done ⟨within.steps, ?_⟩
    rw [Array.size_push]
    exact room
  · have full : machine.output.size = limits.lines :=
      Nat.le_antisymm within.lines (Nat.not_lt.mp room)
    rw [if_neg room]
    refine ⟨Nat.le_succ_of_le within.steps, within.lines, ?_, fun _ => full⟩
    exact iff_of_false nofun (Nat.ne_of_lt (Nat.lt_succ_of_le within.steps))

end Machine

/-- Whatever is executed from within the limits ends as they say. -/
theorem Executes.within
    {limits : Limits} {task : Task} {machine : Machine} {ended : Ended}
    (executed : Executes limits task machine ended)
    (within : machine.Within limits) :
    ended.Within limits := by
  induction executed with
  | spent counted exhausted =>
      exact within.stop_stepped exhausted
  | faulted first left evaluated =>
      exact evaluated.stop_within (within.stepped left)
  | declare left evaluated =>
      have later := evaluated.within_of_ok (within.stepped left)
      exact .done ⟨later.steps, later.lines⟩
  | assign left evaluated =>
      exact (evaluated.within_of_ok (within.stepped left)).assign _ _
  | print left evaluated =>
      exact (evaluated.within_of_ok (within.stepped left)).print _
  | ifThen left evaluated truthy executed inductionHypothesis =>
      exact inductionHypothesis (evaluated.within_of_ok (within.stepped left))
  | ifThenSkipped left evaluated falsy =>
      exact .done (evaluated.within_of_ok (within.stepped left))
  | ifElse left evaluated executed inductionHypothesis =>
      exact inductionHypothesis (evaluated.within_of_ok (within.stepped left))
  | loop left turned inductionHypothesis =>
      exact inductionHypothesis (within.stepped left)
  | turnFaulted evaluated =>
      exact evaluated.stop_within within
  | turnOver evaluated falsy =>
      exact .done (evaluated.within_of_ok within)
  | turnStopped evaluated truthy executed inductionHypothesis =>
      exact inductionHypothesis (evaluated.within_of_ok within)
  | turnAgain evaluated truthy executed turned blockHypothesis turnsHypothesis =>
      have block := blockHypothesis (evaluated.within_of_ok within)
      exact turnsHypothesis block.machine_within
  | block left executed inductionHypothesis =>
      exact inductionHypothesis (within.stepped left)
  | empty =>
      exact .done within
  | bodyStopped executed inductionHypothesis =>
      exact inductionHypothesis within
  | bodyNext executed following statementHypothesis restHypothesis =>
      exact restHypothesis (statementHypothesis within).machine_within

/-- A block takes a step of its own. -/
theorem Executes.steps_lt_of_block
    {limits : Limits} {block : Block} {machine : Machine} {ended : Ended}
    (executed : Executes limits (.block block) machine ended) :
    machine.steps < ended.machine.steps := by
  cases executed with
  | spent counted exhausted =>
      exact Nat.lt_succ_self _
  | @block body span _ _ left executed =>
      have before := (executeAll_follows (Nat.le_refl limits.steps) (Nat.le_refl limits.lines)
        body machine.stepped).after
      rw [executed.eq_execute]
      exact Nat.lt_of_succ_le before.steps

/-- A loop turns a number of times: its condition is true, and its block comes to its end. -/
inductive Turns (limits : Limits) (condition : Expression) (body : Block) :
    Nat → Machine → Machine → Prop
  | none {machine : Machine} :
      Turns limits condition body 0 machine machine
  | again
      {count : Nat} {machine later middle last : Machine} {value : Value}
      (evaluated : machine.Evaluates limits condition (.ok value) later)
      (truthy : value.isTruthy = true)
      (executed : Executes limits (.block body) later middle.done)
      (turns : Turns limits condition body count middle last) :
      Turns limits condition body (count + 1) machine last

/-- Each turn of a loop takes at least two steps: one for its condition and one for its block. -/
theorem Turns.steps_le
    {limits : Limits} {condition : Expression} {body : Block} {count : Nat}
    {first last : Machine}
    (turns : Turns limits condition body count first last) :
    first.steps + 2 * count ≤ last.steps := by
  induction turns with
  | none =>
      exact Nat.le_refl _
  | @again count machine later middle last value evaluated truthy executed turns
      inductionHypothesis =>
      have conditionStep := evaluated.steps_lt
      have blockStep : later.steps < middle.steps := executed.steps_lt_of_block
      omega

/-- The outcome of a run is within the limits, and is classified by its fault and its steps. -/
structure Outcome.Classified (limits : Limits) (outcome : Outcome) : Prop where
  steps : outcome.steps ≤ limits.steps + 1
  counted : outcome.steps < 2 ^ 64
  output : outcome.output = outcome.printed ++ (outcome.fault.map Fault.line).toList
  lines : outcome.printed.length ≤ limits.lines
  faulted : outcome.phase = .faulted ↔ outcome.fault.isSome
  completed : outcome.phase = .completed ↔ outcome.fault = none
  spent : outcome.fault = some .stepLimitExceeded ↔ outcome.steps = limits.steps + 1
  full : outcome.fault = some .outputLimitExceeded → outcome.printed.length = limits.lines

namespace Program

/-- A program is executed as the block of its statements. -/
def task (program : Program) : Task :=
  .block (.mk program.body program.span)

theorem execute_task
    (program : Program)
    (limits : Limits)
    (machine : Machine) :
    program.task.execute limits machine = program.execute limits machine :=
  rfl

/-- The outcome of a run whose end is within limits that a counter of 64 bits can hold. -/
theorem classified_run
    {program : Program} {limits : Limits}
    (within : (program.execute limits .initial).Within limits)
    (small : limits.steps < 2 ^ 64 - 1) :
    (program.run limits).Classified limits where
  steps := within.steps
  counted := by
    have steps : (program.run limits).steps ≤ limits.steps + 1 := within.steps
    omega
  output := rfl
  lines := within.lines
  faulted := by
    unfold Outcome.phase
    cases (program.run limits).fault <;> simp
  completed := by
    unfold Outcome.phase
    cases (program.run limits).fault <;> simp
  spent := within.spent
  full := within.full

/--
Every run ends within its limits, and its outcome is classified exactly.

The rules of execution, which do not bound the turns of a loop, lead from the
first machine to exactly one end, and the run reports it; each turn of a loop on
the way takes at least two steps.  The steps exceed the limit by one exactly when
the limit stopped the run, and only a full output stops it for its lines.
-/
theorem run_ends_within_limits
    (program : Program)
    (limits : Limits)
    (small : limits.steps < 2 ^ 64 - 1) :
    (∃ ended,
        (∀ other, Executes limits program.task .initial other ↔ other = ended) ∧
          (program.run limits).printed = ended.machine.output.toList ∧
            (program.run limits).fault = ended.fault ∧
              (program.run limits).steps = ended.machine.steps) ∧
      (∀ condition body count first last,
        Turns limits condition body count first last → first.steps + 2 * count ≤ last.steps) ∧
        (program.run limits).Classified limits := by
  have executed := program.task.executes_execute limits .initial
  have initial : Machine.initial.Within limits := ⟨Nat.zero_le _, Nat.zero_le _⟩
  refine ⟨⟨program.execute limits .initial, fun other => ?_, rfl, rfl, rfl⟩, ?_, ?_⟩
  · rw [executes_iff, execute_task]
  · exact fun _ _ _ _ _ turns => turns.steps_le
  · exact classified_run (executed.within initial) small

/-- A loop without end is stopped by its steps, or before by its lines. -/
theorem run_endlessLines :
    10 < 2 ^ 64 - 1 ∧
      (endlessLines.run ⟨10, 9⟩).fault = some .stepLimitExceeded ∧
        (endlessLines.run ⟨10, 9⟩).steps = 11 ∧
          (endlessLines.run ⟨10, 1⟩).fault = some .outputLimitExceeded ∧
            (endlessLines.run ⟨10, 1⟩).printed.length = 1 := by
  have bySteps := (endlessLines.run_ends_within_limits ⟨10, 9⟩ (by decide)).2.2
  have byLines := (endlessLines.run_ends_within_limits ⟨10, 1⟩ (by decide)).2.2
  have spent : (endlessLines.run ⟨10, 9⟩).fault = some .stepLimitExceeded := by
    decide +kernel
  have full : (endlessLines.run ⟨10, 1⟩).fault = some .outputLimitExceeded := by
    decide +kernel
  exact ⟨by decide, spent, bySteps.spent.mp spent, full, byLines.full full⟩

end Program

end Bhasha
