import Bhasha.Proofs.Evaluation.Limits
import Bhasha.Proofs.Syntax.Parts
import Bhasha.Syntax.Outline

namespace Bhasha

/-!
# The cost of a run

The outline of a tree has one node for every part that takes a step.  An expression
is evaluated in full, so a value costs exactly the nodes of its outline.  A statement
without loops comes to each of its nodes once at most, and a program that also has no
conditionals comes to all of them.  So the nodes of a program without loops bound the
steps of its runs, and a limit that is not below them stops none of them.
-/

namespace Outline

@[simp] theorem nodeCount_branch
    (kind : NodeKind)
    (attributes : List (String × String))
    (children : List OutlineChild) :
    (branch kind attributes children).nodeCount = 1 + childCount children :=
  rfl

@[simp] theorem childCount_under
    (outline : Outline)
    (label : String)
    (rest : List OutlineChild) :
    childCount (outline.under label :: rest) = outline.nodeCount + childCount rest := by
  rcases outline with ⟨kind, _, value, attributes, children⟩
  rfl

@[simp] theorem childCount_list
    (name : String)
    (items : List Outline)
    (rest : List OutlineChild) :
    childCount (.list name items :: rest) = itemCount items + childCount rest :=
  rfl

end Outline

namespace Statement

/-- The statement is a loop. -/
def isLoop : Statement → Bool
  | loop .. => true
  | _ => false

/-- The statement is a conditional. -/
def isConditional : Statement → Bool
  | ifThen .. | ifElse .. => true
  | _ => false

end Statement

/-- No statement of some is of a kind. -/
def Lack (kind : Statement → Bool) (parts : List Statement) : Prop :=
  ∀ part ∈ parts, kind part = false

instance (kind : Statement → Bool) (parts : List Statement) : Decidable (Lack kind parts) :=
  inferInstanceAs (Decidable (∀ part ∈ parts, kind part = false))

namespace Lack

variable {kind : Statement → Bool} {part : Statement} {parts rest : List Statement}

theorem head (lack : Lack kind (part :: parts)) : kind part = false :=
  lack part List.mem_cons_self

theorem tail (lack : Lack kind (part :: parts)) : Lack kind parts :=
  fun other member => lack other (List.mem_cons_of_mem _ member)

theorem left (lack : Lack kind (parts ++ rest)) : Lack kind parts :=
  fun other member => lack other (List.mem_append_left _ member)

theorem right (lack : Lack kind (parts ++ rest)) : Lack kind rest :=
  fun other member => lack other (List.mem_append_right _ member)

end Lack

namespace Metered

/-- A result takes at most some steps from a start, and exactly those if it is a value. -/
structure Costs (start nodes : Nat) (result : Metered α) : Prop where
  atMost : result.steps ≤ start + nodes
  exactly : ∀ value, result.outcome = .ok value → result.steps = start + nodes

namespace Costs

variable {start nodes more : Nat}

theorem free (outcome : Except Fault α) :
    Costs start 0 (⟨outcome, start⟩ : Metered α) :=
  ⟨Nat.le_refl _, fun _ _ => rfl⟩

/-- The cost of what comes after some nodes, from the start of them on. -/
theorem after
    {result : Metered α}
    (costs : Costs (start + nodes) more result) :
    Costs start (nodes + more) result := by
  obtain ⟨atMost, exactly⟩ := costs
  rw [Nat.add_assoc] at atMost exactly
  exact ⟨atMost, exactly⟩

/-- A fault among some nodes keeps an evaluation from the nodes after them. -/
theorem stopped
    {fault : Fault} {steps : Nat}
    (atMost : steps ≤ start + nodes) :
    Costs start (nodes + more) (⟨.error fault, steps⟩ : Metered α) := by
  refine ⟨?_, nofun⟩
  rw [← Nat.add_assoc]
  exact Nat.le_add_right_of_le atMost

theorem tick
    {limit : Nat} {next : Nat → Metered α}
    (following : Costs (start + 1) nodes (next (start + 1))) :
    Costs start (1 + nodes) (Metered.tick limit start next) := by
  unfold Metered.tick
  split
  · exact .after following
  · exact .stopped (Nat.le_refl _)

theorem andThen
    {first : Metered α} {next : α → Nat → Metered β}
    (costs : Costs start nodes first)
    (following : ∀ value steps, Costs steps more (next value steps)) :
    Costs start (nodes + more) (first.andThen next) := by
  rcases first with ⟨fault | value, steps⟩
  · exact .stopped costs.atMost
  · obtain rfl : steps = start + nodes := costs.exactly value rfl
    exact .after (following value _)

end Costs

end Metered

namespace Outline

/-- The nodes of an operator are its own, and those of its operands. -/
theorem nodeCount_binary
    (operator : BinaryOperator)
    (left right : Expression)
    (span : Span) :
    (ofExpression (.binary operator left right span)).nodeCount =
      1 + ((ofExpression left).nodeCount + (ofExpression right).nodeCount) := by
  rw [ofExpression, nodeCount_branch, childCount_under, childCount_under]
  rfl

end Outline

namespace Expression

open Metered

/-- An expression costs the nodes of its outline. -/
theorem recurse_costs
    (limit : Nat)
    (environment : Environment)
    (expression : Expression)
    (steps : Nat) :
    Costs steps (Outline.ofExpression expression).nodeCount
      (expression.recurse limit environment steps) := by
  induction expression generalizing steps with
  | literal | name =>
      exact .tick (.free _)
  | binary operator left right span leftHypothesis rightHypothesis =>
      rw [Outline.nodeCount_binary]
      exact .tick <| (leftHypothesis _).andThen fun leftValue steps =>
        (rightHypothesis steps).andThen fun rightValue steps => .free _

end Expression

theorem Machine.Evaluates.costs
    {limits : Limits} {machine later : Machine} {expression : Expression}
    {outcome : Except Fault Value}
    (evaluated : machine.Evaluates limits expression outcome later) :
    Metered.Costs machine.steps (Outline.ofExpression expression).nodeCount
      ⟨outcome, later.steps⟩ := by
  rw [← evaluated.result, Expression.evaluate, Expression.walk_nil]
  exact expression.recurse_costs limits.steps machine.environment machine.steps

/--
The end of an execution takes at most some steps from a start.

It takes exactly those if it is no fault and the execution comes to the whole of its part.
-/
structure Ended.Costs (start nodes : Nat) (whole : Prop) (ended : Ended) : Prop where
  atMost : ended.machine.steps ≤ start + nodes
  exactly : whole → ended.fault = none → ended.machine.steps = start + nodes

namespace Ended.Costs

variable {start nodes more : Nat} {whole part rest : Prop} {ended : Ended}

/-- An execution that takes no further step. -/
theorem free
    {machine : Machine} {fault : Option Fault}
    (same : machine.steps = start) :
    Costs start 0 whole ⟨fault, machine⟩ :=
  ⟨Nat.le_of_eq same, fun _ _ => same⟩

theorem imp
    (implies : whole → part)
    (costs : Costs start nodes part ended) :
    Costs start nodes whole ended :=
  ⟨costs.atMost, fun all => costs.exactly (implies all)⟩

/-- An execution that does not come to the whole of its part may take fewer steps. -/
theorem skip
    (skips : ¬ whole)
    (atMost : ended.machine.steps ≤ start + nodes)
    (fewer : nodes ≤ more) :
    Costs start more whole ended :=
  ⟨Nat.le_trans atMost (Nat.add_le_add_left fewer start), fun all => absurd all skips⟩

/-- The cost of what comes after some nodes, from the start of them on. -/
theorem after
    {first : Nat}
    (reached : first = start + nodes)
    (costs : Costs first more whole ended) :
    Costs start (nodes + more) whole ended := by
  obtain ⟨atMost, exactly⟩ := costs
  rw [reached, Nat.add_assoc] at atMost exactly
  exact ⟨atMost, exactly⟩

/-- A fault among some nodes keeps an execution from the nodes after them. -/
theorem stopped
    {machine : Machine} {fault : Fault}
    (atMost : machine.steps ≤ start + nodes) :
    Costs start (nodes + more) whole ⟨some fault, machine⟩ := by
  refine ⟨?_, nofun⟩
  rw [← Nat.add_assoc]
  exact Nat.le_add_right_of_le atMost

theorem andThen
    {next : Machine → Ended}
    (costs : Costs start nodes part ended)
    (following : ∀ later, Costs later.steps more rest (next later)) :
    Costs start (nodes + more) (part ∧ rest) (ended.andThen next) := by
  rcases ended with ⟨_ | fault, later⟩
  · -- A first part that skips some of its nodes leaves the bound, but not the equality.
    have before : later.steps ≤ start + nodes := costs.atMost
    obtain ⟨atMost, exactly⟩ := following later
    refine ⟨?_, fun ⟨first, second⟩ completed => ?_⟩
    · rw [← Nat.add_assoc]
      exact Nat.le_trans atMost (Nat.add_le_add_right before more)
    · have reached : later.steps = start + nodes := costs.exactly first rfl
      rw [← Nat.add_assoc, ← reached]
      exact exactly second completed
  · exact .stopped costs.atMost

variable {limits : Limits} {machine : Machine}

theorem tick
    {next : Machine → Ended}
    (following : Costs machine.stepped.steps nodes whole (next machine.stepped)) :
    Costs machine.steps (1 + nodes) whole (machine.tick limits next) := by
  rcases Nat.lt_or_ge machine.steps limits.steps with left | exhausted
  · rw [Machine.tick_of_left left]
    exact .after rfl following
  · rw [Machine.tick_of_exhausted exhausted]
    exact .stopped (Nat.le_refl _)

theorem evaluate
    {expression : Expression} {next : Value → Machine → Ended}
    (following : ∀ value later, Costs later.steps more whole (next value later)) :
    Costs machine.steps ((Outline.ofExpression expression).nodeCount + more) whole
      (machine.evaluate limits expression next) := by
  rcases machine.exists_evaluates limits expression with
    ⟨value, later, evaluated⟩ | ⟨fault, later, evaluated⟩
  · rw [evaluated.evaluate_ok]
    exact .after (evaluated.costs.exactly value rfl) (following value later)
  · rw [evaluated.evaluate_error]
    exact .stopped evaluated.costs.atMost

end Ended.Costs

section

variable (limits : Limits)

open Ended Outline

mutual

/-- A statement without loops costs at most its nodes, and all of them without conditionals. -/
theorem Statement.execute_costs
    (statement : Statement)
    (noLoop : Lack Statement.isLoop statement.parts)
    (machine : Machine) :
    (statement.execute limits machine).Costs machine.steps (Outline.ofStatement statement).nodeCount
      (Lack Statement.isConditional statement.parts) := by
  cases statement with
  | declare type name value span =>
      rw [Statement.execute, Outline.ofStatement, nodeCount_branch, childCount_under]
      exact .tick <| .evaluate fun value later => .free rfl
  | assign name value span =>
      rw [Statement.execute, Outline.ofStatement, nodeCount_branch, childCount_under]
      refine .tick <| .evaluate fun value later => ?_
      rw [Machine.assign]
      split
      · exact .free rfl
      · exact .free rfl
  | print value span =>
      rw [Statement.execute, Outline.ofStatement, nodeCount_branch, childCount_under]
      refine .tick <| .evaluate fun value later => ?_
      rw [Machine.print]
      split
      · exact .free rfl
      · exact .free rfl
  | ifThen condition consequent span =>
      have skips :
          ¬ Lack Statement.isConditional (Statement.ifThen condition consequent span).parts :=
        fun lack => Bool.false_ne_true lack.head.symm
      rw [Statement.execute, Outline.ofStatement, nodeCount_branch, childCount_under,
        childCount_under]
      refine .tick <| .evaluate fun value later => ?_
      split
      · exact .skip skips (consequent.execute_costs noLoop.tail later).atMost (Nat.le_refl _)
      · exact .skip skips (Nat.le_refl later.steps) (Nat.zero_le _)
  | ifElse condition consequent alternate span =>
      have skips :
          ¬ Lack Statement.isConditional
            (Statement.ifElse condition consequent alternate span).parts :=
        fun lack => Bool.false_ne_true lack.head.symm
      rw [Statement.execute, Outline.ofStatement, nodeCount_branch, childCount_under,
        childCount_under, childCount_under]
      refine .tick <| .evaluate fun value later => ?_
      split
      · have taken := consequent.execute_costs noLoop.tail.left later
        exact .skip skips taken.atMost (Nat.le_add_right _ _)
      · have taken := alternate.execute_costs noLoop.tail.right later
        exact .skip skips taken.atMost (Nat.le_add_left _ _)
  | loop condition body span =>
      exact absurd noLoop.head Bool.noConfusion

theorem Block.execute_costs
    (block : Block)
    (noLoop : Lack Statement.isLoop block.parts)
    (machine : Machine) :
    (block.execute limits machine).Costs machine.steps (Outline.ofBlock block).nodeCount
      (Lack Statement.isConditional block.parts) := by
  cases block with
  | mk body span =>
      rw [Block.execute, Outline.ofBlock, nodeCount_branch, childCount_list]
      exact .tick (executeAll_costs body noLoop machine.stepped)

theorem executeAll_costs
    (body : List Statement)
    (noLoop : Lack Statement.isLoop (partsAll body))
    (machine : Machine) :
    (executeAll limits body machine).Costs machine.steps
      (Outline.itemCount (Outline.ofStatements body))
      (Lack Statement.isConditional (partsAll body)) := by
  cases body with
  | nil =>
      exact .free rfl
  | cons statement rest =>
      rw [executeAll_cons]
      refine .imp (fun lack => ⟨lack.left, lack.right⟩)
        ((statement.execute_costs noLoop.left machine).andThen fun later =>
          executeAll_costs rest noLoop.right later)

end

end

namespace Program

theorem execute_costs
    (program : Program)
    (limits : Limits)
    (noLoop : Lack Statement.isLoop program.parts) :
    (program.execute limits .initial).Costs 0 (Outline.ofProgram program).nodeCount
      (Lack Statement.isConditional program.parts) := by
  rw [execute, Outline.ofProgram, Outline.nodeCount_branch, Outline.childCount_list]
  exact .tick (executeAll_costs limits program.body noLoop Machine.initial.stepped)

/--
Steps are the nodes of the outline.

An expression that has a value takes as many steps as its outline has nodes, from any
state.  A run of a program without loops takes at most as many steps as the outline of
the program has nodes, exactly as many if the program has no conditionals either and
the run completes, and it is never stopped by a limit that is not below them.
-/
theorem run_costs (program : Program) (limits : Limits) :
    (∀ (expression : Expression) (environment : Environment) (limit steps later : Nat)
        (value : Value),
      expression.evaluate limit environment steps = .ok value later →
        later = steps + (Outline.ofExpression expression).nodeCount) ∧
    (Lack Statement.isLoop program.parts →
      (program.run limits).steps ≤ (Outline.ofProgram program).nodeCount ∧
      (Lack Statement.isConditional program.parts → (program.run limits).fault = none →
        (program.run limits).steps = (Outline.ofProgram program).nodeCount) ∧
      ((Outline.ofProgram program).nodeCount ≤ limits.steps →
        (program.run limits).fault ≠ some .stepLimitExceeded)) := by
  refine ⟨fun expression environment limit steps later value evaluated => ?_, fun noLoop => ?_⟩
  · have costs := expression.recurse_costs limit environment steps
    rw [← Expression.walk_nil, ← Expression.evaluate, evaluated] at costs
    exact costs.exactly value rfl
  · obtain ⟨atMost, exactly⟩ := program.execute_costs limits noLoop
    rw [Nat.zero_add] at atMost exactly
    refine ⟨atMost, exactly, fun enough stopped => ?_⟩
    have initial : Machine.initial.Within limits := ⟨Nat.zero_le _, Nat.zero_le _⟩
    have within := (program.task.executes_execute limits .initial).within initial
    have beyond : (program.execute limits .initial).machine.steps = limits.steps + 1 :=
      within.spent.mp stopped
    omega

/-- The program `string a = "on"; print(a);`. -/
def straight : Program where
  body :=
    [.declare .string ⟨"a", .point .first⟩ (.literal (.string "on") "" (.point .first))
        (.point .first),
      .print (.name "a" (.point .first)) (.point .first)]
  span := .point .first

/-- The program `if ("on") \x7b string a = "on"; print(a); \x7d`. -/
def branching : Program where
  body :=
    [.ifThen (.literal (.string "on") "" (.point .first)) (.mk straight.body (.point .first))
      (.point .first)]
  span := .point .first

/-- Five nodes cost five steps, eight steps are enough for eight nodes, and one for a name. -/
theorem run_costs_straight :
    (Lack Statement.isLoop straight.parts ∧ Lack Statement.isConditional straight.parts ∧
      (straight.run ⟨5, 1⟩).fault = none ∧ (straight.run ⟨5, 1⟩).steps = 5) ∧
    (Lack Statement.isLoop branching.parts ∧ (branching.run ⟨8, 0⟩).steps ≤ 8 ∧
      (branching.run ⟨8, 0⟩).fault ≠ some .stepLimitExceeded) ∧
    (Expression.name "a" (.point .first)).evaluate 9
        (Environment.empty.define "a" (.boolean true)) 3 = .ok (.boolean true) 4 ∧
      4 = 3 + (Outline.ofExpression (.name "a" (.point .first))).nodeCount := by
  have noLoop : Lack Statement.isLoop straight.parts := by
    decide
  have noConditional : Lack Statement.isConditional straight.parts := by
    decide
  have alsoNoLoop : Lack Statement.isLoop branching.parts := by
    decide
  have completed : (straight.run ⟨5, 1⟩).fault = none :=
    rfl
  have evaluated : (Expression.name "a" (.point .first)).evaluate 9
      (Environment.empty.define "a" (.boolean true)) 3 = .ok (.boolean true) 4 :=
    rfl
  obtain ⟨expressions, statements⟩ := run_costs straight ⟨5, 1⟩
  obtain ⟨atMost, -, enough⟩ := (run_costs branching ⟨8, 0⟩).2 alsoNoLoop
  exact ⟨⟨noLoop, noConditional, completed, (statements noLoop).2.1 noConditional completed⟩,
    ⟨alsoNoLoop, atMost, enough (Nat.le_refl _)⟩, evaluated, expressions _ _ _ _ _ _ evaluated⟩

end Program

end Bhasha
