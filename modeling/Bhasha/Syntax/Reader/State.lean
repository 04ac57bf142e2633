import Bhasha.Source
import Bhasha.Syntax.Tree
import Bhasha.Token

namespace Bhasha

/-!
# Places inside a program

A program is read one token at a time.  A place between two tokens holds what is
still open: the blocks around the current statement, and, inside an expression,
the operands that wait for their right side and the parentheses around them.

Operators wait until an operator that binds no tighter, a closing parenthesis,
or the end of the expression comes; `Reader.settle` joins the ones that bind at
least as tightly as a given precedence.
-/

namespace Reader

/-- The most parentheses and blocks that may be open at once. -/
def maxNesting : Nat := 256

/-- The most operators that an expression may hold open at once. -/
def maxOperators : Nat := 1024

/-- How many parentheses and blocks, and how many operators, may be open at once. -/
structure Bounds where
  nesting : Nat
  operators : Nat
  deriving Repr, DecidableEq

/-- The bounds of every program that is read. -/
def Bounds.standard : Bounds := ⟨maxNesting, maxOperators⟩

/-- What a token was wanted for when it was refused. -/
inductive Wanted where
  | openParen
  | closeParen
  | openBrace
  | semicolon
  | assign
  | identifier
  | expression
  | statement
  deriving Repr, DecidableEq

namespace Wanted

/-- The hint that names what was wanted. -/
def hint : Wanted → String
  | openParen => "'('"
  | closeParen => "')'"
  | openBrace => "'\x7b'"
  | semicolon => "';'"
  | assign => "'='"
  | identifier => "identifier"
  | expression => "expression"
  | statement => "statement"

end Wanted

/-- Why a token is refused. -/
inductive Refusal where
  | wanted (wanted : Wanted)
  | nesting
  | operators
  deriving Repr, DecidableEq

/-- The statement that an expression belongs to, and what is known of it. -/
inductive Heading where
  | declare (start : Span) (type : DeclaredType) (name : Name)
  | assign (start : Span) (name : Name)
  | print (start : Span)
  | conditional (start : Span)
  | loop (start : Span)

/--
What an expression is in the middle of.

`opened` counts the operators that are open once the operand which is being
read is complete.
-/
inductive Waiting where
  | operand (left : Expression) (operator : BinaryOperator) (opened : Nat)
  | paren (opened : Nat)

/-- What a block belongs to. -/
inductive Owner where
  | consequent (start : Span) (condition : Expression)
  | alternate (start : Span) (condition : Expression) (consequent : Block)
  | loop (start : Span) (condition : Expression)

/-- A block that is open: what it belongs to, where it starts, and the statements before it. -/
structure OpenBlock where
  owner : Owner
  start : Span
  before : List Statement

/-- What the next token may be. -/
inductive Expecting where
  | statement
  | alternate (start : Span) (condition : Expression) (consequent : Block)
  | name (start : Span) (type : DeclaredType)
  | assign (heading : Heading)
  | openParen (heading : Heading)
  | operand (heading : Heading) (waiting : List Waiting)
  | operator (heading : Heading) (waiting : List Waiting) (value : Expression) (opened : Nat)
  | endOfPrint (start : Span) (value : Expression)
  | openBrace (owner : Owner)
  | tooDeep

/--
A place inside a program.

`body` holds the statements of the innermost open block, and every list of
statements is in reverse order.  `last` is the span of the last token read.
-/
structure State where
  blocks : List OpenBlock
  body : List Statement
  expecting : Expecting
  last : Span

/-- Operands that wait in a list. -/
def Waiting.opened : List Waiting → Nat
  | [] => 0
  | .operand _ _ opened :: _ => opened
  | .paren opened :: _ => opened

/-- The parentheses that are open in a list. -/
def Waiting.parens (waiting : List Waiting) : Nat :=
  waiting.countP fun entry => match entry with
    | .paren _ => true
    | .operand .. => false

/--
Join the operands that wait with operators of at least some precedence.

The result is what still waits, the joined operand, and the number of operators
that are open.
-/
def settle (precedence : Nat) :
    List Waiting → Expression → Nat → List Waiting × Expression × Nat
  | .operand left operator before :: waiting, value, opened =>
      if precedence ≤ operator.precedence then
        settle precedence waiting (Expression.join operator left value) before
      else (.operand left operator before :: waiting, value, opened)
  | waiting, value, opened => (waiting, value, opened)

namespace Owner

/-- The statement whose last block is complete, after the last token read. -/
def complete (owner : Owner) (block : Block) (last : Span) : Statement :=
  match owner with
  | consequent start condition => .ifThen condition block (start.merge last)
  | alternate start condition first => .ifElse condition first block (start.merge last)
  | loop start condition => .loop condition block (start.merge last)

end Owner

namespace Heading

/-- What comes after the expression of a statement. -/
def wantedAfter : Heading → Wanted
  | declare .. | assign .. => .semicolon
  | print _ | conditional _ | loop _ => .closeParen

end Heading

namespace Expecting

/-- Why a token that cannot be used here is refused. -/
def refusal : Expecting → Refusal
  | statement | alternate .. => .wanted .statement
  | name .. => .wanted .identifier
  | assign _ => .wanted .assign
  | openParen _ => .wanted .openParen
  | operand .. => .wanted .expression
  | operator heading waiting _ _ =>
      .wanted (if Waiting.parens waiting = 0 then heading.wantedAfter else .closeParen)
  | endOfPrint .. => .wanted .semicolon
  | openBrace _ => .wanted .openBrace
  | tooDeep => .nesting

end Expecting

end Reader

end Bhasha
