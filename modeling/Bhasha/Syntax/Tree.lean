import Bhasha.Operator
import Bhasha.Position

namespace Bhasha

/-!
# Syntax trees

A program is a list of statements.  Every part of a tree carries the span of
the text it was read from, and a literal also carries that text; neither has a
meaning when the program runs.
-/

/-- A name in the place where it is declared or assigned. -/
structure Name where
  text : String
  span : Span
  deriving Repr, DecidableEq

/-- The value of a literal. -/
inductive Literal where
  | number (value : Float)
  | string (value : String)
  deriving DecidableEq

/-- An expression; parentheses leave nothing behind in it. -/
inductive Expression where
  | literal (value : Literal) (raw : String) (span : Span)
  | name (text : String) (span : Span)
  | binary (operator : BinaryOperator) (left right : Expression) (span : Span)
  deriving DecidableEq

namespace Expression

/-- The text that an expression was read from runs over this span. -/
def span : Expression → Span
  | literal _ _ span => span
  | name _ span => span
  | binary _ _ _ span => span

/-- Two operands joined by an operator, over the text of both. -/
def join (operator : BinaryOperator) (left right : Expression) : Expression :=
  binary operator left right (left.span.merge right.span)

end Expression

/-- The type that a declaration names; it has no effect on the value. -/
inductive DeclaredType where
  | integer
  | float
  | string
  deriving Repr, DecidableEq

namespace DeclaredType

/-- The name of a declared type. -/
def name : DeclaredType → String
  | integer => "integer"
  | float => "float"
  | string => "string"

end DeclaredType

mutual

/-- A statement. -/
inductive Statement where
  | declare (type : DeclaredType) (name : Name) (value : Expression) (span : Span)
  | assign (name : Name) (value : Expression) (span : Span)
  | print (value : Expression) (span : Span)
  | ifThen (condition : Expression) (consequent : Block) (span : Span)
  | ifElse (condition : Expression) (consequent alternate : Block) (span : Span)
  | loop (condition : Expression) (body : Block) (span : Span)

/-- The statements between two braces. -/
inductive Block where
  | mk (body : List Statement) (span : Span)

end

namespace Statement

/-- The text that a statement was read from runs over this span. -/
def span : Statement → Span
  | declare _ _ _ span => span
  | assign _ _ span => span
  | print _ span => span
  | ifThen _ _ span => span
  | ifElse _ _ _ span => span
  | loop _ _ span => span

end Statement

namespace Block

/-- The statements of a block. -/
def body : Block → List Statement
  | mk body _ => body

/-- The text that a block was read from runs over this span. -/
def span : Block → Span
  | mk _ span => span

end Block

/-- A program: its statements and the span of its text. -/
structure Program where
  body : List Statement
  span : Span

/-- The kinds of parts that a tree has. -/
inductive NodeKind where
  | program
  | declaration
  | assignment
  | print
  | conditional
  | loop
  | block
  | binary
  | literal
  | identifier
  deriving Repr, DecidableEq

namespace NodeKind

/-- The name of a kind of part. -/
def name : NodeKind → String
  | program => "Program"
  | declaration => "VariableDeclaration"
  | assignment => "Assignment"
  | print => "PrintStatement"
  | conditional => "IfStatement"
  | loop => "WhileStatement"
  | block => "BlockStatement"
  | binary => "BinaryExpression"
  | literal => "Literal"
  | identifier => "Identifier"

end NodeKind

end Bhasha
