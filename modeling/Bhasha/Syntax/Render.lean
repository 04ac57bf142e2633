import Bhasha.Number.Display
import Bhasha.Syntax.Tree
import Bhasha.Text.Blank

namespace Bhasha

/-!
# Rendered programs

A program is rendered as text with one statement a line and two blanks a level.
Declarations start with `let`, printing is a call of the print sink, and an
operand stands in parentheses only where the tree would be read differently
without them.
-/

namespace Render

/-- The name of the call that prints. -/
def printSink : String := "__print"

/-- An operand in need of parentheses binds less tightly, or as tightly on the right. -/
def needsParens (parent : BinaryOperator) (isRight : Bool) : Expression → Bool
  | .binary operator _ _ _ =>
      operator.precedence < parent.precedence ||
        (isRight && operator.precedence == parent.precedence)
  | _ => false

/-- The text of a literal. -/
def literal : Literal → String
  | .number value => NumberStyle.screen.write value
  | .string value => "\"" ++ value ++ "\""

/-- Write an expression after what is already written. -/
def expressionTo (out : String) : Expression → String
  | .literal value _ _ => out ++ literal value
  | .name text _ => out ++ text
  | .binary operator left right _ =>
      let out :=
        if needsParens operator false left then (expressionTo (out.push '(') left).push ')'
        else expressionTo out left
      let out := out ++ " " ++ operator.symbol ++ " "
      if needsParens operator true right then (expressionTo (out.push '(') right).push ')'
      else expressionTo out right

/-- The text of an expression. -/
def expression (value : Expression) : String := expressionTo "" value

mutual

/-- Write a statement and the end of its line after what is already written. -/
def statementTo (out : String) (level : Nat) : Statement → String
  | .declare _ name value _ =>
      expressionTo (out ++ Text.indent level ++ "let " ++ name.text ++ " = ") value ++ ";\n"
  | .assign name value _ =>
      expressionTo (out ++ Text.indent level ++ name.text ++ " = ") value ++ ";\n"
  | .print value _ =>
      expressionTo (out ++ Text.indent level ++ printSink ++ "(") value ++ ");\n"
  | .ifThen condition consequent _ =>
      let out := expressionTo (out ++ Text.indent level ++ "if (") condition ++ ") "
      (blockTo out level consequent).push '\n'
  | .ifElse condition consequent alternate _ =>
      let out := expressionTo (out ++ Text.indent level ++ "if (") condition ++ ") "
      (blockTo (blockTo out level consequent ++ " else ") level alternate).push '\n'
  | .loop condition body _ =>
      let out := expressionTo (out ++ Text.indent level ++ "while (") condition ++ ") "
      (blockTo out level body).push '\n'

/-- Write a block after what is already written. -/
def blockTo (out : String) (level : Nat) : Block → String
  | .mk [] _ => out ++ "\x7b\x7d"
  | .mk (statement :: rest) _ =>
      let out := statementTo (out ++ "\x7b\n") (level + 1) statement
      (statementsTo out (level + 1) rest ++ Text.indent level).push '\x7d'

/-- Write statements one after the other after what is already written. -/
def statementsTo (out : String) (level : Nat) : List Statement → String
  | [] => out
  | statement :: rest => statementsTo (statementTo out level statement) level rest

end

/-- The text of a program. -/
def program (program : Program) : String := statementsTo "" 0 program.body

end Render

end Bhasha
