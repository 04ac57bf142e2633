import Bhasha.Proofs.Evaluation.Rules

namespace Bhasha

/-!
# Effects of statements

Evaluating an expression changes the steps of a machine and nothing else.  A
declaration, an assignment and a print statement have one effect each: it binds a name
or adds a line, and a statement that faults does not have it.
-/

/-- What a statement changes: a name is bound to a value, or a line is added. -/
inductive Effect where
  | bind (name : String) (value : Value)
  | line (text : String)

namespace Effect

/-- The machine after an effect. -/
def apply (machine : Machine) : Effect → Machine
  | bind name value => machine.define name value
  | line text => { machine with output := machine.output.push text }

/-- The machine after effects, the first one first. -/
def applyAll (machine : Machine) (effects : List Effect) : Machine :=
  effects.foldl apply machine

/-- What an effect changes and what it leaves, apart from the steps. -/
def Changes (machine later : Machine) : Effect → Prop
  | bind name value =>
      later.output = machine.output ∧
        ∀ other, later.environment.get? other =
          if name = other then some value else machine.environment.get? other
  | line text =>
      later.environment = machine.environment ∧ later.output = machine.output.push text

end Effect

/-- The expression of a statement that has an effect, and the effect for its value. -/
def Statement.effect? : Statement → Option (Expression × (Value → Effect))
  | .declare _ name value _ | .assign name value _ => some (value, .bind name.text)
  | .print value _ => some (value, fun value => .line value.display)
  | .ifThen .. | .ifElse .. | .loop .. => none

namespace Machine

/-- A later machine differs from an earlier one in its steps only. -/
def SameButSteps (machine later : Machine) : Prop :=
  later = { machine with steps := later.steps }

namespace SameButSteps

variable {machine middle later : Machine}

theorem refl (machine : Machine) :
    machine.SameButSteps machine :=
  rfl

theorem stepped (machine : Machine) :
    machine.SameButSteps machine.stepped :=
  rfl

theorem trans
    (first : machine.SameButSteps middle)
    (second : middle.SameButSteps later) :
    machine.SameButSteps later := by
  unfold SameButSteps at first second ⊢
  rw [first] at second
  exact second

theorem environment
    (same : machine.SameButSteps later) :
    later.environment = machine.environment := by
  rw [same]

theorem output
    (same : machine.SameButSteps later) :
    later.output = machine.output := by
  rw [same]

/-- An effect does not depend on the steps. -/
theorem apply
    (same : machine.SameButSteps later)
    (effect : Effect) :
    (effect.apply machine).SameButSteps (effect.apply later) := by
  unfold SameButSteps at same ⊢
  rw [same]
  cases effect <;> rfl

/-- Effects do not depend on the steps. -/
theorem applyAll
    (effects : List Effect) :
    ∀ {machine later : Machine}, machine.SameButSteps later →
      (Effect.applyAll machine effects).SameButSteps (Effect.applyAll later effects) := by
  induction effects with
  | nil =>
      exact id
  | cons effect effects inductionHypothesis =>
      intro machine later same
      exact inductionHypothesis (same.apply effect)

end SameButSteps

variable {limits : Limits} {machine later : Machine} {expression : Expression}

/-- An expression has one value. -/
theorem Evaluates.value_eq
    {value other : Value} {otherLater : Machine}
    (evaluated : machine.Evaluates limits expression (.ok value) later)
    (otherEvaluated : machine.Evaluates limits expression (.ok other) otherLater) :
    value = other := by
  have same := evaluated.result.symm.trans otherEvaluated.result
  exact Except.ok.inj (congrArg Metered.outcome same)

end Machine

namespace Effect

/-- Effects add lines to those that are printed already. -/
theorem prefix_output_applyAll
    (effects : List Effect) :
    ∀ machine : Machine, machine.output.toList <+: (applyAll machine effects).output.toList := by
  induction effects with
  | nil =>
      exact fun machine => List.prefix_rfl
  | cons effect effects inductionHypothesis =>
      intro machine
      have first : machine.output.toList <+: (effect.apply machine).output.toList := by
        cases effect with
        | bind name value =>
            exact List.prefix_rfl
        | line text =>
            rw [apply, Array.toList_push]
            exact List.prefix_append _ _
      exact first.trans (inductionHypothesis _)

/-- A binding changes one name, and a line is put after the others. -/
theorem changes_of_apply
    {machine later : Machine} {effect : Effect}
    (same : (effect.apply machine).SameButSteps later) :
    effect.Changes machine later := by
  cases effect with
  | bind name value =>
      refine ⟨same.output, fun other => ?_⟩
      rw [same.environment]
      exact machine.environment.get?_define name other value
  | line text =>
      exact ⟨same.environment, same.output⟩

end Effect

namespace Statement

/-- A statement with an effect evaluates its expression, and then it is done or faults. -/
theorem execute_eq_of_effect
    {statement : Statement} {expression : Expression} {effect : Value → Effect}
    (atomic : statement.effect? = some (expression, effect))
    (limits : Limits)
    (machine : Machine) :
    ∃ next : Value → Machine → Ended,
      (statement.execute limits machine =
        machine.tick limits fun machine => machine.evaluate limits expression next) ∧
      ∀ value middle,
        next value middle = ((effect value).apply middle).done ∨
          ∃ fault, next value middle = middle.stop fault := by
  cases statement with
  | declare =>
      cases atomic
      exact ⟨_, rfl, fun value middle => .inl rfl⟩
  | assign =>
      cases atomic
      refine ⟨_, rfl, fun value middle => ?_⟩
      rw [Machine.assign, Environment.set?_eq]
      split
      case h_1 environment bound =>
        rw [Option.ite_none_right_eq_some] at bound
        obtain ⟨-, same⟩ := bound
        cases same
        exact .inl rfl
      case h_2 =>
        exact .inr ⟨_, rfl⟩
  | print =>
      cases atomic
      refine ⟨_, rfl, fun value middle => ?_⟩
      rw [Machine.print]
      split
      · exact .inl rfl
      · exact .inr ⟨_, rfl⟩
  | ifThen | ifElse | loop =>
      cases atomic

/-- A statement with an effect faults and changes the steps only, or it has just this effect. -/
theorem execute_of_effect
    {statement : Statement} {expression : Expression} {effect : Value → Effect}
    (atomic : statement.effect? = some (expression, effect))
    (limits : Limits)
    (machine : Machine) :
    (∃ fault later, statement.execute limits machine = later.stop fault ∧
        machine.SameButSteps later) ∨
      ∃ value middle, machine.stepped.Evaluates limits expression (.ok value) middle ∧
        statement.execute limits machine = ((effect value).apply middle).done := by
  obtain ⟨next, executed, cases⟩ := execute_eq_of_effect atomic limits machine
  rw [executed]
  rcases Nat.lt_or_ge machine.steps limits.steps with left | exhausted
  · rw [Machine.tick_of_left left]
    have stepped := Machine.SameButSteps.stepped machine
    rcases machine.stepped.exists_evaluates limits expression with
      ⟨value, later, evaluated⟩ | ⟨fault, later, evaluated⟩
    · rw [evaluated.evaluate_ok]
      rcases cases value later with done | ⟨fault, stopped⟩
      · exact .inr ⟨value, later, evaluated, done⟩
      · exact .inl ⟨fault, later, stopped, stepped.trans evaluated.kept⟩
    · rw [evaluated.evaluate_error]
      exact .inl ⟨fault, later, rfl, stepped.trans evaluated.kept⟩
  · rw [Machine.tick_of_exhausted exhausted]
    exact .inl ⟨_, _, rfl, .stepped machine⟩

end Statement

end Bhasha
