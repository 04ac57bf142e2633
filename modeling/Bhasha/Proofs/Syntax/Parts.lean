import Bhasha.Syntax.Tree

namespace Bhasha

/-!
# The parts of a tree

A statement is made of the statements inside it and of the expressions in them, and
an expression of the expressions inside it.  The lists here have every part in front
of those inside it.
-/

namespace Expression

/-- An expression and all that it is made of. -/
def parts : Expression → List Expression
  | literal value raw span => [literal value raw span]
  | name text span => [name text span]
  | binary operator left right span =>
      binary operator left right span :: (left.parts ++ right.parts)

theorem mem_parts (value : Expression) :
    value ∈ value.parts := by
  cases value <;> exact List.mem_cons_self

end Expression

mutual

/-- The expressions of a statement, and all that they are made of. -/
def Statement.expressions : Statement → List Expression
  | .declare _ _ value _ | .assign _ value _ | .print value _ => value.parts
  | .ifThen condition consequent _ => condition.parts ++ consequent.expressions
  | .ifElse condition consequent alternate _ =>
      condition.parts ++ (consequent.expressions ++ alternate.expressions)
  | .loop condition body _ => condition.parts ++ body.expressions

/-- The expressions of a block, and all that they are made of. -/
def Block.expressions : Block → List Expression
  | .mk body _ => expressionsAll body

/-- The expressions of some statements, and all that they are made of. -/
def expressionsAll : List Statement → List Expression
  | [] => []
  | statement :: rest => statement.expressions ++ expressionsAll rest

end

/-- The expressions of a program, and all that they are made of. -/
def Program.expressions (program : Program) : List Expression :=
  expressionsAll program.body

mutual

/-- A statement and the statements inside it. -/
def Statement.parts : Statement → List Statement
  | .declare type name value span => [.declare type name value span]
  | .assign name value span => [.assign name value span]
  | .print value span => [.print value span]
  | .ifThen condition consequent span => .ifThen condition consequent span :: consequent.parts
  | .ifElse condition consequent alternate span =>
      .ifElse condition consequent alternate span :: (consequent.parts ++ alternate.parts)
  | .loop condition body span => .loop condition body span :: body.parts

/-- The statements inside a block. -/
def Block.parts : Block → List Statement
  | .mk body _ => partsAll body

/-- Some statements and the statements inside them. -/
def partsAll : List Statement → List Statement
  | [] => []
  | statement :: rest => statement.parts ++ partsAll rest

end

/-- The statements of a program, those inside blocks included. -/
def Program.parts (program : Program) : List Statement :=
  partsAll program.body

/-- A statement is one of its parts. -/
theorem Statement.mem_parts (statement : Statement) :
    statement ∈ statement.parts := by
  cases statement <;> simp [parts]

end Bhasha
