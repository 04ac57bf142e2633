import Bhasha.Run

namespace Bhasha

/-!
# Limits truncate runs

Two runs of one program under different limits do the same until the tighter
limits stop the first of them.  `Metered.Follows` and `Ended.Follows` relate the
two results of one part of a program: they are equal, or the first was stopped
by a limit where the second had come at least as far.  Both relations also say
that the second result lies after the start, which is what lets a stop inside
one part be compared with the end of the parts after it.
-/

namespace Fault

/-- A fault that only limits cause. -/
def IsLimit (fault : Fault) : Prop :=
  fault = stepLimitExceeded ∨ fault = outputLimitExceeded

end Fault

namespace Metered

/-- Results after some steps, under tight and loose limits. -/
structure Follows
    (start : Nat)
    (tight loose : Metered α) : Prop where
  after : start ≤ loose.steps
  agrees :
    tight = loose ∨
      tight.outcome = .error .stepLimitExceeded ∧ tight.steps ≤ loose.steps

namespace Follows

theorem refl
    {start : Nat} {result : Metered α}
    (after : start ≤ result.steps) :
    Follows start result result :=
  ⟨after, .inl rfl⟩

/-- Results that lie after a point lie after every earlier one. -/
theorem of_le
    {earlier start : Nat} {tight loose : Metered α}
    (le : earlier ≤ start)
    (follows : Follows start tight loose) :
    Follows earlier tight loose :=
  ⟨Nat.le_trans le follows.after, follows.agrees⟩

/-- What goes on from related results in a related way ends in related results. -/
theorem andThen
    {start : Nat} {tight loose : Metered α}
    {tightNext looseNext : α → Nat → Metered β}
    (first : Follows start tight loose)
    (next : ∀ value steps, start ≤ steps →
      Follows steps (tightNext value steps) (looseNext value steps)) :
    Follows start (tight.andThen tightNext) (loose.andThen looseNext) := by
  obtain ⟨after, agrees⟩ := first
  rcases loose with ⟨fault | value, steps⟩
  · rcases agrees with rfl | ⟨stopped, le⟩
    · exact refl after
    · rcases tight with ⟨outcome, tightSteps⟩
      cases stopped
      exact ⟨after, .inr ⟨rfl, le⟩⟩
  · have rest := next value steps after
    refine ⟨Nat.le_trans after rest.after, ?_⟩
    rcases agrees with rfl | ⟨stopped, le⟩
    · exact rest.agrees
    · rcases tight with ⟨outcome, tightSteps⟩
      cases stopped
      exact .inr ⟨rfl, Nat.le_trans le rest.after⟩

/-- A step under tight and loose limits. -/
theorem tick
    {tightLimit looseLimit steps : Nat}
    {tightNext looseNext : Nat → Metered α}
    (limits : tightLimit ≤ looseLimit)
    (next : Follows (steps + 1) (tightNext (steps + 1)) (looseNext (steps + 1))) :
    Follows (steps + 1)
      (Metered.tick tightLimit steps tightNext)
      (Metered.tick looseLimit steps looseNext) := by
  unfold Metered.tick
  by_cases tightLeft : steps < tightLimit
  · rw [if_pos tightLeft, if_pos (Nat.lt_of_lt_of_le tightLeft limits)]
    exact next
  rw [if_neg tightLeft]
  by_cases looseLeft : steps < looseLimit
  · rw [if_pos looseLeft]
    exact ⟨next.after, .inr ⟨rfl, next.after⟩⟩
  · rw [if_neg looseLeft]
    exact refl (Nat.le_refl _)

end Follows

end Metered

namespace Expression

open Metered

variable {tightLimit looseLimit : Nat}

/-- An operator under way goes on in a related way when its right operand does. -/
theorem settle_follows_cons
    {operator : BinaryOperator}
    {tightRight looseRight : Nat → Metered Value}
    {tightPending loosePending : List Pending}
    (right : ∀ steps, Follows steps (tightRight steps) (looseRight steps))
    (pending : ∀ value steps,
      Follows steps (settle tightPending value steps) (settle loosePending value steps))
    (left : Value)
    (steps : Nat) :
    Follows steps
      (settle (⟨operator, tightRight⟩ :: tightPending) left steps)
      (settle (⟨operator, looseRight⟩ :: loosePending) left steps) := by
  apply (right steps).andThen
  intro value steps _
  cases operator.apply left value with
  | ok result =>
      exact pending result steps
  | error fault =>
      exact .refl (Nat.le_refl _)

/-- The walk takes a step and is followed under looser limits. -/
theorem walk_follows
    (limits : tightLimit ≤ looseLimit)
    (environment : Environment)
    (expression : Expression) :
    ∀ {tightPending loosePending : List Pending},
      (∀ value steps,
        Follows steps (settle tightPending value steps) (settle loosePending value steps)) →
      ∀ steps,
        Follows (steps + 1)
          (walk tightLimit environment expression tightPending steps)
          (walk looseLimit environment expression loosePending steps) := by
  induction expression with
  | literal value raw span =>
      intro _ _ pending steps
      exact .tick limits (pending value.toValue (steps + 1))
  | name text span =>
      intro _ _ pending steps
      refine .tick limits ?_
      cases environment.lookup text with
      | ok value =>
          exact pending value (steps + 1)
      | error fault =>
          exact .refl (Nat.le_refl _)
  | binary operator left right span leftFollows rightFollows =>
      intro _ _ pending steps
      -- The right operand is walked with nothing pending, once the left one has a value.
      have alone : ∀ value steps,
          Follows steps (settle [] value steps) (settle [] value steps) :=
        fun _ _ => .refl (Nat.le_refl _)
      have rightOperand : ∀ steps,
          Follows steps
            (walk tightLimit environment right [] steps)
            (walk looseLimit environment right [] steps) :=
        fun steps => (rightFollows alone steps).of_le (Nat.le_succ steps)
      refine .tick limits ?_
      exact (leftFollows (settle_follows_cons rightOperand pending) (steps + 1)).of_le
        (Nat.le_succ _)

/-- An evaluation takes a step and is followed under looser limits. -/
theorem evaluate_follows
    (limits : tightLimit ≤ looseLimit)
    (environment : Environment)
    (expression : Expression)
    (steps : Nat) :
    Follows (steps + 1)
      (expression.evaluate tightLimit environment steps)
      (expression.evaluate looseLimit environment steps) :=
  walk_follows limits environment expression (fun _ _ => .refl (Nat.le_refl _)) steps

/-- With no step left an evaluation stops at its first. -/
theorem evaluate_of_exhausted
    {limit steps : Nat}
    (exhausted : limit ≤ steps)
    (environment : Environment)
    (expression : Expression) :
    expression.evaluate limit environment steps = .fault .stepLimitExceeded (steps + 1) := by
  cases expression <;>
    simp only [evaluate, walk, tick, if_neg (Nat.not_lt.mpr exhausted)]

end Expression

namespace Machine

/-- One machine has come at least as far as another. -/
structure Before (earlier later : Machine) : Prop where
  steps : earlier.steps ≤ later.steps
  output : earlier.output.toList <+: later.output.toList

namespace Before

theorem refl (machine : Machine) : Before machine machine :=
  ⟨Nat.le_refl _, List.prefix_rfl⟩

theorem trans
    {earlier middle later : Machine}
    (first : Before earlier middle)
    (second : Before middle later) :
    Before earlier later :=
  ⟨Nat.le_trans first.steps second.steps, first.output.trans second.output⟩

end Before

end Machine

namespace Ended

/-- Go on from the end of an execution, unless it faulted. -/
def andThen (ended : Ended) (next : Machine → Ended) : Ended :=
  match ended with
  | ⟨none, machine⟩ => next machine
  | ⟨some fault, machine⟩ => ⟨some fault, machine⟩

/-- The ends of executions from one machine, under tight and loose limits. -/
structure Follows
    (start : Machine)
    (tight loose : Ended) : Prop where
  after : start.Before loose.machine
  agrees :
    tight = loose ∨
      (∃ fault, tight.fault = some fault ∧ fault.IsLimit) ∧
        tight.machine.Before loose.machine

namespace Follows

theorem refl
    {start : Machine} {ended : Ended}
    (after : start.Before ended.machine) :
    Follows start ended ended :=
  ⟨after, .inl rfl⟩

/-- Ends that lie after a machine lie after every earlier one. -/
theorem of_before
    {earlier start : Machine} {tight loose : Ended}
    (before : earlier.Before start)
    (follows : Follows start tight loose) :
    Follows earlier tight loose :=
  ⟨before.trans follows.after, follows.agrees⟩

/-- A limit stops the first execution where the second goes on. -/
theorem of_stop
    {start : Machine} {loose : Ended} {fault : Fault}
    (isLimit : fault.IsLimit)
    (after : start.Before loose.machine) :
    Follows start (start.stop fault) loose :=
  ⟨after, .inr ⟨⟨fault, rfl, isLimit⟩, after⟩⟩

/-- What goes on from related ends in a related way ends in a related way. -/
theorem andThen
    {start : Machine} {tight loose : Ended}
    {tightNext looseNext : Machine → Ended}
    (first : Follows start tight loose)
    (next : ∀ machine, start.Before machine →
      Follows machine (tightNext machine) (looseNext machine)) :
    Follows start (tight.andThen tightNext) (loose.andThen looseNext) := by
  obtain ⟨after, agrees⟩ := first
  rcases loose with ⟨fault | fault, machine⟩
  · have rest := next machine after
    refine ⟨after.trans rest.after, ?_⟩
    rcases agrees with rfl | ⟨⟨fault, stopped, isLimit⟩, before⟩
    · exact rest.agrees
    · rcases tight with ⟨outcome, tightMachine⟩
      cases stopped
      exact .inr ⟨⟨fault, rfl, isLimit⟩, before.trans rest.after⟩
  · rcases agrees with rfl | ⟨⟨limit, stopped, isLimit⟩, before⟩
    · exact refl after
    · rcases tight with ⟨outcome, tightMachine⟩
      cases stopped
      exact ⟨after, .inr ⟨⟨limit, rfl, isLimit⟩, before⟩⟩

end Follows

end Ended

namespace Machine

open Ended

variable {tight loose : Limits}

/-- A machine with one more step has come further. -/
theorem before_step (machine : Machine) :
    machine.Before { machine with steps := machine.steps + 1 } :=
  ⟨Nat.le_succ _, List.prefix_rfl⟩

/-- A step under tight and loose limits. -/
theorem tick_follows
    (steps : tight.steps ≤ loose.steps)
    (machine : Machine)
    {tightNext looseNext : Machine → Ended}
    (next : ∀ machine, Follows machine (tightNext machine) (looseNext machine)) :
    Follows machine (machine.tick tight tightNext) (machine.tick loose looseNext) := by
  apply Follows.of_before machine.before_step
  simp only [tick]
  by_cases tightLeft : machine.steps + 1 ≤ tight.steps
  · rw [if_pos tightLeft, if_pos (Nat.le_trans tightLeft steps)]
    exact next _
  rw [if_neg tightLeft]
  by_cases looseLeft : machine.steps + 1 ≤ loose.steps
  · rw [if_pos looseLeft]
    exact .of_stop (.inl rfl) (next _).after
  · rw [if_neg looseLeft]
    exact .refl (.refl _)

/-- An evaluation takes a step; what goes on with its value is followed under looser limits. -/
theorem evaluate_follows
    (steps : tight.steps ≤ loose.steps)
    (machine : Machine)
    (expression : Expression)
    {tightNext looseNext : Value → Machine → Ended}
    (next : ∀ value later, machine.Before later → machine.steps < later.steps →
      Follows later (tightNext value later) (looseNext value later)) :
    Follows machine
      (machine.evaluate tight expression tightNext)
      (machine.evaluate loose expression looseNext) := by
  have follows := expression.evaluate_follows steps machine.environment machine.steps
  unfold evaluate
  generalize expression.evaluate tight.steps machine.environment machine.steps = first at follows
  generalize expression.evaluate loose.steps machine.environment machine.steps = second at follows
  obtain ⟨after, agrees⟩ := follows
  have before : machine.Before { machine with steps := second.steps } :=
    ⟨Nat.le_of_succ_le after, List.prefix_rfl⟩
  rcases second with ⟨fault | value, later⟩
  · rcases agrees with rfl | ⟨stopped, le⟩
    · exact .refl before
    · rcases first with ⟨outcome, earlier⟩
      cases stopped
      exact ⟨before, .inr ⟨⟨_, rfl, .inl rfl⟩, le, List.prefix_rfl⟩⟩
  · have rest := next value { machine with steps := later } before after
    refine ⟨before.trans rest.after, ?_⟩
    rcases agrees with rfl | ⟨stopped, le⟩
    · exact rest.agrees
    · rcases first with ⟨outcome, earlier⟩
      cases stopped
      have reached : Before { machine with steps := earlier } { machine with steps := later } :=
        ⟨le, List.prefix_rfl⟩
      exact .inr ⟨⟨_, rfl, .inl rfl⟩, reached.trans rest.after⟩

/-- A line is printed under loose limits whenever it is under tight ones. -/
theorem print_follows
    (lines : tight.lines ≤ loose.lines)
    (machine : Machine)
    (value : Value) :
    Follows machine (machine.print tight value) (machine.print loose value) := by
  have before :
      machine.Before { machine with output := machine.output.push value.display } :=
    ⟨Nat.le_refl _, by simp⟩
  unfold print
  by_cases tightLeft : machine.output.size < tight.lines
  · rw [if_pos tightLeft, if_pos (Nat.lt_of_lt_of_le tightLeft lines)]
    exact .refl before
  rw [if_neg tightLeft]
  by_cases looseLeft : machine.output.size < loose.lines
  · rw [if_pos looseLeft]
    exact .of_stop (.inr rfl) before
  · rw [if_neg looseLeft]
    exact .refl (.refl _)

/-- An assignment prints nothing and takes no step. -/
theorem before_assign
    (machine : Machine)
    (name : String)
    (value : Value) :
    machine.Before (machine.assign name value).machine := by
  unfold assign
  cases machine.environment.set? name value with
  | none =>
      exact .refl machine
  | some environment =>
      exact ⟨Nat.le_refl _, List.prefix_rfl⟩

/-- A turn of a loop, when its turns are enough for the steps that are left. -/
theorem turn_eq
    {limits : Limits}
    {condition : Expression}
    {body : Machine → Ended}
    {left : Nat}
    {machine : Machine}
    (enough : limits.steps - machine.steps ≤ left) :
    machine.turn limits condition body left =
      machine.evaluate limits condition fun value machine =>
        if value.isTruthy then (body machine).andThen (turn limits condition body (left - 1))
        else machine.done := by
  cases left with
  | zero =>
      have exhausted : limits.steps ≤ machine.steps :=
        Nat.sub_eq_zero_iff_le.mp (Nat.le_zero.mp enough)
      -- No turn is left because no step is: the condition stops at its first step.
      simp only [turn, evaluate, Expression.evaluate_of_exhausted exhausted, Metered.fault]
  | succ left =>
      rw [turn]
      refine congrArg (machine.evaluate limits condition)
        (funext fun value => funext fun later => ?_)
      by_cases truthy : value.isTruthy
      · rw [if_pos truthy, if_pos truthy]
        rcases body later with ⟨_ | fault, ended⟩ <;> rfl
      · rw [if_neg truthy, if_neg truthy]

/--
A loop is followed under looser limits when its body is.

The induction is on the turns of the second run; a turn takes a step, so the
turns that remain stay enough for the steps that are left in both runs.
-/
theorem turn_follows
    (steps : tight.steps ≤ loose.steps)
    (condition : Expression)
    {tightBody looseBody : Machine → Ended}
    (body : ∀ machine, Follows machine (tightBody machine) (looseBody machine))
    (looseLeft : Nat) :
    ∀ (tightLeft : Nat) (machine : Machine),
      tight.steps - machine.steps ≤ tightLeft →
      loose.steps - machine.steps ≤ looseLeft →
        Follows machine
          (machine.turn tight condition tightBody tightLeft)
          (machine.turn loose condition looseBody looseLeft) := by
  induction looseLeft with
  | zero =>
      intro tightLeft machine tightEnough looseEnough
      have exhausted : tight.steps ≤ machine.steps := by
        omega
      rw [turn_eq tightEnough, turn]
      simp only [evaluate, Expression.evaluate_of_exhausted exhausted, Metered.fault]
      exact .refl machine.before_step
  | succ looseLeft inductionHypothesis =>
      intro tightLeft machine tightEnough looseEnough
      rw [turn_eq tightEnough, turn_eq looseEnough]
      apply machine.evaluate_follows steps condition
      intro value later _ advanced
      by_cases truthy : value.isTruthy
      · rw [if_pos truthy, if_pos truthy]
        apply (body later).andThen
        intro last before
        have farther := before.steps
        exact inductionHypothesis (tightLeft - 1) last (by omega) (by omega)
      · rw [if_neg truthy, if_neg truthy]
        exact .refl (.refl later)

end Machine

open Ended

/-- Statements in order: the first, and then the others. -/
theorem executeAll_cons
    (limits : Limits)
    (statement : Statement)
    (rest : List Statement)
    (machine : Machine) :
    executeAll limits (statement :: rest) machine =
      (statement.execute limits machine).andThen (executeAll limits rest) := by
  rw [executeAll]
  rcases statement.execute limits machine with ⟨_ | fault, ended⟩ <;> rfl

section Execution

variable {tight loose : Limits}

mutual

/-- A statement is followed under looser limits. -/
theorem Statement.execute_follows
    (steps : tight.steps ≤ loose.steps)
    (lines : tight.lines ≤ loose.lines)
    (statement : Statement)
    (machine : Machine) :
    Follows machine (statement.execute tight machine) (statement.execute loose machine) := by
  cases statement with
  | declare declared name value span =>
      rw [Statement.execute, Statement.execute]
      refine machine.tick_follows steps fun machine => ?_
      refine machine.evaluate_follows steps value fun value later _ _ => ?_
      exact .refl ⟨Nat.le_refl _, List.prefix_rfl⟩
  | assign name value span =>
      rw [Statement.execute, Statement.execute]
      refine machine.tick_follows steps fun machine => ?_
      refine machine.evaluate_follows steps value fun value later _ _ => ?_
      exact .refl (later.before_assign name.text value)
  | print value span =>
      rw [Statement.execute, Statement.execute]
      refine machine.tick_follows steps fun machine => ?_
      exact machine.evaluate_follows steps value fun value later _ _ =>
        later.print_follows lines value
  | ifThen condition consequent span =>
      rw [Statement.execute, Statement.execute]
      refine machine.tick_follows steps fun machine => ?_
      refine machine.evaluate_follows steps condition fun value later _ _ => ?_
      by_cases truthy : value.isTruthy
      · rw [if_pos truthy, if_pos truthy]
        exact consequent.execute_follows steps lines later
      · rw [if_neg truthy, if_neg truthy]
        exact .refl (.refl later)
  | ifElse condition consequent alternate span =>
      rw [Statement.execute, Statement.execute]
      refine machine.tick_follows steps fun machine => ?_
      refine machine.evaluate_follows steps condition fun value later _ _ => ?_
      by_cases truthy : value.isTruthy
      · rw [if_pos truthy, if_pos truthy]
        exact consequent.execute_follows steps lines later
      · rw [if_neg truthy, if_neg truthy]
        exact alternate.execute_follows steps lines later
  | loop condition body span =>
      rw [Statement.execute, Statement.execute]
      refine machine.tick_follows steps fun machine => ?_
      exact Machine.turn_follows steps condition (body.execute_follows steps lines)
        (loose.steps - machine.steps) (tight.steps - machine.steps) machine
        (Nat.le_refl _) (Nat.le_refl _)

theorem Block.execute_follows
    (steps : tight.steps ≤ loose.steps)
    (lines : tight.lines ≤ loose.lines)
    (block : Block)
    (machine : Machine) :
    Follows machine (block.execute tight machine) (block.execute loose machine) := by
  cases block with
  | mk body span =>
      exact machine.tick_follows steps fun machine =>
        executeAll_follows steps lines body machine

theorem executeAll_follows
    (steps : tight.steps ≤ loose.steps)
    (lines : tight.lines ≤ loose.lines)
    (body : List Statement)
    (machine : Machine) :
    Follows machine (executeAll tight body machine) (executeAll loose body machine) := by
  cases body with
  | nil =>
      exact .refl (.refl machine)
  | cons statement rest =>
      rw [executeAll_cons, executeAll_cons]
      exact (statement.execute_follows steps lines machine).andThen fun later _ =>
        executeAll_follows steps lines rest later

end

/-- A program is followed under looser limits. -/
theorem Program.execute_follows
    (steps : tight.steps ≤ loose.steps)
    (lines : tight.lines ≤ loose.lines)
    (program : Program)
    (machine : Machine) :
    Follows machine (program.execute tight machine) (program.execute loose machine) :=
  machine.tick_follows steps fun machine =>
    executeAll_follows steps lines program.body machine

end Execution

/--
Limits only truncate a run.

Under looser limits a run prints at least the same lines and takes at least as
many steps; and a run that no limit stopped has the same outcome under them: the
same lines, fault, phase and steps.
-/
theorem Program.run_truncated
    (program : Program)
    (tight loose : Limits)
    (steps : tight.steps ≤ loose.steps)
    (lines : tight.lines ≤ loose.lines) :
    (program.run tight).printed <+: (program.run loose).printed ∧
      (program.run tight).steps ≤ (program.run loose).steps ∧
        ((program.run tight).fault ≠ some .stepLimitExceeded →
          (program.run tight).fault ≠ some .outputLimitExceeded →
            program.run tight = program.run loose) := by
  have follows := program.execute_follows steps lines .initial
  rcases follows.agrees with same | ⟨⟨fault, stopped, isLimit⟩, before⟩
  · have runs : program.run tight = program.run loose := by
      simp only [Program.run, same]
    rw [runs]
    exact ⟨List.prefix_rfl, Nat.le_refl _, fun _ _ => rfl⟩
  · refine ⟨before.output, before.steps, ?_⟩
    intro notSteps notLines
    rcases isLimit with rfl | rfl
    · exact absurd stopped notSteps
    · exact absurd stopped notLines

/-- A program that prints two lines in each turn of a loop without end. -/
def endlessLines : Program :=
  let span := Span.point .first
  let line (text : String) : Expression := .literal (.string text) "" span
  ⟨[.loop (line "on") (.mk [.print (line "a") span, .print (line "b") span] span) span], span⟩

/-- Under six more steps the run of `endlessLines` prints the same lines and then two more. -/
theorem endlessLines_run :
    (endlessLines.run ⟨10, 9⟩).printed = ["a", "b"] ∧
      (endlessLines.run ⟨16, 9⟩).printed = ["a", "b", "a", "b"] ∧
        (endlessLines.run ⟨10, 9⟩).printed <+: (endlessLines.run ⟨16, 9⟩).printed ∧
          (endlessLines.run ⟨10, 9⟩).steps ≤ (endlessLines.run ⟨16, 9⟩).steps := by
  have truncated := endlessLines.run_truncated ⟨10, 9⟩ ⟨16, 9⟩ (by decide) (by decide)
  exact ⟨by decide +kernel, by decide +kernel, truncated.1, truncated.2.1⟩

end Bhasha
