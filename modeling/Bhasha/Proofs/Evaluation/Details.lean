import Bhasha.Proofs.Syntax.Relabel
import Bhasha.Run

namespace Bhasha

/-!
# Runs do not see the details of a tree

Whatever becomes of the spans, the literal texts and the declared types of a
program, it is rendered as the same text and does the same when it runs.
-/

namespace Render

theorem needsParens_relabel
    (labels : Relabel)
    (parent : BinaryOperator)
    (isRight : Bool)
    (value : Expression) :
    needsParens parent isRight (value.relabel labels) = needsParens parent isRight value := by
  cases value <;> rfl

theorem expressionTo_relabel
    (labels : Relabel)
    (value : Expression)
    (out : String) :
    expressionTo out (value.relabel labels) = expressionTo out value := by
  induction value generalizing out with
  | literal value raw span =>
      rfl
  | name text span =>
      rfl
  | binary operator left right span leftHypothesis rightHypothesis =>
      simp only [Expression.relabel, expressionTo, needsParens_relabel, leftHypothesis,
        rightHypothesis]

mutual

theorem statementTo_relabel
    (labels : Relabel)
    (out : String)
    (level : Nat)
    (statement : Statement) :
    statementTo out level (statement.relabel labels) = statementTo out level statement := by
  cases statement with
  | declare type name value span =>
      simp only [Statement.relabel, statementTo, expressionTo_relabel, Name.relabel]
  | assign name value span =>
      simp only [Statement.relabel, statementTo, expressionTo_relabel, Name.relabel]
  | print value span =>
      simp only [Statement.relabel, statementTo, expressionTo_relabel]
  | ifThen condition consequent span =>
      simp only [Statement.relabel, statementTo, expressionTo_relabel, blockTo_relabel]
  | ifElse condition consequent alternate span =>
      simp only [Statement.relabel, statementTo, expressionTo_relabel, blockTo_relabel]
  | loop condition body span =>
      simp only [Statement.relabel, statementTo, expressionTo_relabel, blockTo_relabel]

theorem blockTo_relabel
    (labels : Relabel)
    (out : String)
    (level : Nat)
    (block : Block) :
    blockTo out level (block.relabel labels) = blockTo out level block := by
  rcases block with ⟨_ | ⟨statement, rest⟩, span⟩
  · rfl
  · simp only [Block.relabel, relabelAll, blockTo, statementTo_relabel, statementsTo_relabel]

theorem statementsTo_relabel
    (labels : Relabel)
    (out : String)
    (level : Nat)
    (statements : List Statement) :
    statementsTo out level (relabelAll labels statements) = statementsTo out level statements := by
  cases statements with
  | nil =>
      rfl
  | cons statement rest =>
      simp only [relabelAll, statementsTo, statementTo_relabel, statementsTo_relabel]

end

end Render

/-- The walk over an expression does not see its details. -/
theorem Expression.walk_relabel
    (labels : Relabel)
    (limit : Nat)
    (environment : Environment)
    (value : Expression) :
    walk limit environment (value.relabel labels) = walk limit environment value := by
  funext pending steps
  induction value generalizing pending steps with
  | literal value raw span =>
      rfl
  | name text span =>
      rfl
  | binary operator left right span leftHypothesis rightHypothesis =>
      -- The right operand waits as a function of the steps, so it is compared as one.
      have rightSame :
          walk limit environment (right.relabel labels) [] = walk limit environment right [] :=
        funext (rightHypothesis [])
      simp only [relabel, walk, rightSame, leftHypothesis]

theorem Machine.evaluate_relabel
    (labels : Relabel)
    (limits : Limits)
    (machine : Machine)
    (value : Expression)
    (next : Value → Machine → Ended) :
    machine.evaluate limits (value.relabel labels) next = machine.evaluate limits value next := by
  simp only [Machine.evaluate, Expression.evaluate, Expression.walk_relabel]

theorem Machine.turn_relabel
    (labels : Relabel)
    (limits : Limits)
    (condition : Expression)
    (body : Machine → Ended)
    (left : Nat) :
    turn limits (condition.relabel labels) body left = turn limits condition body left := by
  induction left with
  | zero =>
      rfl
  | succ left inductionHypothesis =>
      funext machine
      simp only [turn, Machine.evaluate_relabel, inductionHypothesis]

mutual

/-- The execution of a statement does not see its details. -/
theorem Statement.execute_relabel
    (labels : Relabel)
    (limits : Limits)
    (statement : Statement) :
    (statement.relabel labels).execute limits = statement.execute limits := by
  funext machine
  cases statement with
  | declare type name value span =>
      simp only [Statement.relabel, Statement.execute, Machine.evaluate_relabel, Name.relabel]
  | assign name value span =>
      simp only [Statement.relabel, Statement.execute, Machine.evaluate_relabel, Name.relabel]
  | print value span =>
      simp only [Statement.relabel, Statement.execute, Machine.evaluate_relabel]
  | ifThen condition consequent span =>
      simp only [Statement.relabel, Statement.execute, Machine.evaluate_relabel, Block.execute_relabel]
  | ifElse condition consequent alternate span =>
      simp only [Statement.relabel, Statement.execute, Machine.evaluate_relabel, Block.execute_relabel]
  | loop condition body span =>
      simp only [Statement.relabel, Statement.execute, Machine.turn_relabel, Block.execute_relabel]

theorem Block.execute_relabel
    (labels : Relabel)
    (limits : Limits)
    (block : Block) :
    (block.relabel labels).execute limits = block.execute limits := by
  funext machine
  cases block with
  | mk body span =>
      simp only [Block.relabel, Block.execute, executeAll_relabel]

theorem executeAll_relabel
    (labels : Relabel)
    (limits : Limits)
    (body : List Statement) :
    executeAll limits (relabelAll labels body) = executeAll limits body := by
  funext machine
  cases body with
  | nil =>
      rfl
  | cons statement rest =>
      simp only [relabelAll, executeAll, Statement.execute_relabel, executeAll_relabel]

end

/-- A run does not see the details of its program. -/
theorem Program.run_relabel
    (labels : Relabel)
    (limits : Limits)
    (program : Program) :
    (program.relabel labels).run limits = program.run limits := by
  simp only [run, execute, relabel, executeAll_relabel, Render.program,
    Render.statementsTo_relabel]

/-- Programs that differ in details only have the same runs. -/
theorem Program.run_eq_of_relabel
    {labels : Relabel} {first second : Program}
    (like : first.relabel labels = second.relabel labels)
    (limits : Limits) :
    first.run limits = second.run limits := by
  rw [← first.run_relabel labels, like, second.run_relabel]

end Bhasha
