import Bhasha.Syntax.Render

namespace Bhasha.Render

/-!
# The text of rendered programs

Rendering writes after what is already written.  The functions here give what it
adds, one part of a tree after the other, and the theorems say that nothing else
is added and nothing that was written is changed.
-/

/-- An operand with the parentheses that it needs. -/
def wrapped (parens : Bool) (text : List Char) : List Char :=
  if parens then '(' :: (text ++ [')']) else text

/-- The characters of an expression. -/
def expressionText : Expression → List Char
  | .literal value _ _ => (literal value).toList
  | .name text _ => text.toList
  | .binary operator left right _ =>
      wrapped (needsParens operator false left) (expressionText left) ++
        ' ' :: (operator.symbol.toList ++
          ' ' :: wrapped (needsParens operator true right) (expressionText right))

/-- The blanks in front of a statement. -/
def indentText (level : Nat) : List Char := List.replicate (2 * level) ' '

mutual

/-- The characters of a statement after its indentation, and the end of its line. -/
def statementText (level : Nat) : Statement → List Char
  | .declare _ name value _ =>
      ['l', 'e', 't'] ++ ' ' :: (name.text.toList ++ ' ' :: '=' :: ' ' ::
        (expressionText value ++ [';', '\n']))
  | .assign name value _ =>
      name.text.toList ++ ' ' :: '=' :: ' ' :: (expressionText value ++ [';', '\n'])
  | .print value _ =>
      ['_', '_', 'p', 'r', 'i', 'n', 't'] ++ '(' :: (expressionText value ++ [')', ';', '\n'])
  | .ifThen condition consequent _ =>
      ['i', 'f'] ++ ' ' :: '(' :: (expressionText condition ++ ')' :: ' ' ::
        (blockText level consequent ++ ['\n']))
  | .ifElse condition consequent alternate _ =>
      ['i', 'f'] ++ ' ' :: '(' :: (expressionText condition ++ ')' :: ' ' ::
        (blockText level consequent ++ ' ' :: (['e', 'l', 's', 'e'] ++ ' ' ::
          (blockText level alternate ++ ['\n']))))
  | .loop condition body _ =>
      ['w', 'h', 'i', 'l', 'e'] ++ ' ' :: '(' :: (expressionText condition ++ ')' :: ' ' ::
        (blockText level body ++ ['\n']))

/-- The characters of a block. -/
def blockText (level : Nat) : Block → List Char
  | .mk [] _ => ['\x7b', '\x7d']
  | .mk (statement :: rest) _ =>
      '\x7b' :: '\n' :: (indentText (level + 1) ++ (statementText (level + 1) statement ++
        (statementsText (level + 1) rest ++ (indentText level ++ ['\x7d']))))

/-- The characters of statements one after the other. -/
def statementsText (level : Nat) : List Statement → List Char
  | [] => []
  | statement :: rest =>
      indentText level ++ (statementText level statement ++ statementsText level rest)

end

/-- An expression is written after what is already written. -/
theorem toList_expressionTo (out : String) (expression : Expression) :
    (expressionTo out expression).toList = out.toList ++ expressionText expression := by
  induction expression generalizing out with
  | literal value raw span =>
      simp [expressionTo, expressionText]
  | name text span =>
      simp [expressionTo, expressionText]
  | binary operator left right span leftWritten rightWritten =>
      simp only [expressionTo, expressionText]
      cases needsParens operator false left <;> cases needsParens operator true right <;>
        simp [wrapped, leftWritten, rightWritten]

theorem toList_indent (level : Nat) :
    (Text.indent level).toList = indentText level := by
  simp [Text.indent, Text.spaces, indentText]

mutual

/-- A statement is written after what is already written. -/
theorem toList_statementTo (out : String) (level : Nat) (statement : Statement) :
    (statementTo out level statement).toList =
      out.toList ++ (indentText level ++ statementText level statement) := by
  cases statement with
  | declare type name value span =>
      simp only [statementTo, statementText, toList_expressionTo, String.toList_append,
        toList_indent, List.append_assoc]
      rfl
  | assign name value span =>
      simp only [statementTo, statementText, toList_expressionTo, String.toList_append,
        toList_indent, List.append_assoc]
      rfl
  | print value span =>
      simp only [statementTo, statementText, toList_expressionTo, String.toList_append,
        toList_indent, List.append_assoc]
      rfl
  | ifThen condition consequent span =>
      simp only [statementTo, statementText, toList_expressionTo, String.toList_append,
        String.toList_push, toList_indent, toList_blockTo, List.append_assoc]
      rfl
  | ifElse condition consequent alternate span =>
      simp only [statementTo, statementText, toList_expressionTo, String.toList_append,
        String.toList_push, toList_indent, toList_blockTo, List.append_assoc]
      rfl
  | loop condition body span =>
      simp only [statementTo, statementText, toList_expressionTo, String.toList_append,
        String.toList_push, toList_indent, toList_blockTo, List.append_assoc]
      rfl

theorem toList_blockTo (out : String) (level : Nat) (block : Block) :
    (blockTo out level block).toList = out.toList ++ blockText level block := by
  rcases block with ⟨_ | ⟨statement, rest⟩, span⟩
  · simp only [blockTo, blockText, String.toList_append]
    rfl
  · simp only [blockTo, blockText, toList_statementTo, toList_statementsTo,
      String.toList_append, String.toList_push, toList_indent, List.append_assoc]
    rfl

theorem toList_statementsTo (out : String) (level : Nat) (statements : List Statement) :
    (statementsTo out level statements).toList = out.toList ++ statementsText level statements := by
  cases statements with
  | nil =>
      simp only [statementsTo, statementsText, List.append_nil]
  | cons statement rest =>
      simp only [statementsTo, statementsText, toList_statementTo, toList_statementsTo,
        List.append_assoc]

end

/-- The characters of a program are those of its statements. -/
theorem toList_program (program : Program) :
    (Render.program program).toList = statementsText 0 program.body := by
  rw [Render.program, toList_statementsTo]
  rfl

end Bhasha.Render
