import Bhasha.Proofs.Rendering.Restoring
import Bhasha.Proofs.Syntax.Parsing
import Bhasha.Proofs.Syntax.Places

namespace Bhasha

/-!
# Rendered programs are read back

The tokens of a rendered tree derive a tree that differs from it in nothing but
spans, texts of literals and declared types.  Parentheses stand exactly where the
layers of the grammar need them: an operand without them belongs to the layer that
its place asks for.
-/

open Token
open Grammar

namespace Render

/-- The tightest layer to which the tokens of an expression belong. -/
def layer : Expression → Layer
  | .literal .. | .name .. => .primary
  | .binary operator _ _ _ => Layer.of operator

/-- An operand on the left that needs no parentheses binds as tightly as its operator. -/
theorem precedence_le_of_left
    {operator : BinaryOperator} {operand : Expression}
    (bare : needsParens operator false operand = false) :
    (Layer.of operator).precedence ≤ (layer operand).precedence := by
  cases operand with
  | literal | name =>
      exact Nat.le_of_lt (Layer.of_lt_primary operator)
  | binary inner left right span =>
      simp only [needsParens, Bool.false_and, Bool.or_false, decide_eq_false_iff_not,
        Nat.not_lt] at bare
      simpa only [layer, Layer.precedence_of] using bare

/-- An operand on the right that needs no parentheses binds more tightly than its operator. -/
theorem precedence_lt_of_right
    {operator : BinaryOperator} {operand : Expression}
    (bare : needsParens operator true operand = false) :
    (Layer.of operator).precedence < (layer operand).precedence := by
  cases operand with
  | literal | name =>
      exact Layer.of_lt_primary operator
  | binary inner left right span =>
      simp only [needsParens, Bool.true_and, Bool.or_eq_false_iff, decide_eq_false_iff_not,
        Nat.not_lt, beq_eq_false_iff_ne] at bare
      simp only [layer, Layer.precedence_of]
      exact Nat.lt_of_le_of_ne bare.1 bare.2.symm

/-- The symbol of an operator has the role of the operator. -/
theorem role_symbol (operator : BinaryOperator) :
    (bare .operator operator.symbol).role = .binary operator := by
  have notAssign : operator.symbol ≠ "=" := by
    cases operator <;> decide
  change operatorRole operator.symbol = .binary operator
  rw [operatorRole, if_neg notAssign, BinaryOperator.ofSymbol?_symbol]

/-- The tokens of an operand with the parentheses that it needs. -/
theorem derives_wrapped
    {inner target : Layer} {tokens : List Token} {value : Expression} {parens : Bool}
    (derived : Derives inner tokens value)
    (order : parens = false → target.precedence ≤ inner.precedence) :
    Derives target (wrappedTokens parens tokens) value := by
  cases parens with
  | false =>
      exact derived.loosen (order rfl)
  | true =>
      have opens : (bare .punctuation "(").role = .openParen := rfl
      have closes : (bare .punctuation ")").role = .closeParen := rfl
      exact (Derives.paren opens (derived.loosen inner.equality_le) closes).loosen target.le_primary

/-- Operands around an operator, with the parentheses that they need, make a chain of its layer. -/
theorem derives_joined
    {operator : BinaryOperator} {leftLayer rightLayer : Layer} {tokens otherTokens : List Token}
    {left right : Expression} {leftParens rightParens : Bool}
    (leftDerived : Derives leftLayer tokens left)
    (leftOrder : leftParens = false → (Layer.of operator).precedence ≤ leftLayer.precedence)
    (rightDerived : Derives rightLayer otherTokens right)
    (rightOrder : rightParens = false → (Layer.of operator).precedence < rightLayer.precedence)
    (span : Span) :
    Derives (Layer.of operator)
      (wrappedTokens leftParens tokens ++
        bare .operator operator.symbol :: wrappedTokens rightParens otherTokens)
      (.binary operator left right span) := by
  -- A chain is folded to the left, so only its right operand must be of the tighter layer.
  obtain ⟨tighter, next⟩ := Layer.tighter_of_mem (Layer.mem_operators_of operator)
  have rightWrapped : Derives tighter (wrappedTokens rightParens otherTokens) right := by
    refine derives_wrapped rightDerived fun bare => ?_
    rw [Layer.precedence_tighter next]
    exact rightOrder bare
  exact .chain next (derives_wrapped leftDerived leftOrder) (role_symbol operator)
    (Layer.mem_operators_of operator) rightWrapped

/-- The tokens of an expression derive it in its layer, up to details. -/
theorem derives_expressionTokens (expression : Expression) :
    ∃ found, Derives (layer expression) (expressionTokens expression) found ∧
      found.relabel .details = expression.relabel .details := by
  induction expression with
  | literal value raw span =>
      cases value with
      | number value =>
          exact ⟨_, @Derives.number (bare (.number value) _) value span rfl, rfl⟩
      | string value =>
          exact ⟨_, @Derives.string (bare .string value) span rfl, rfl⟩
  | name text span =>
      exact ⟨_, @Derives.name (bare .identifier text) span rfl, rfl⟩
  | binary operator left right span leftHypothesis rightHypothesis =>
      obtain ⟨leftFound, leftDerived, leftLike⟩ := leftHypothesis
      obtain ⟨rightFound, rightDerived, rightLike⟩ := rightHypothesis
      refine ⟨.binary operator leftFound rightFound span,
        derives_joined leftDerived precedence_le_of_left rightDerived precedence_lt_of_right span,
        ?_⟩
      simp only [Expression.relabel, leftLike, rightLike]

/-- The tokens of an expression derive it in the loosest layer, up to details. -/
theorem derives_equality (expression : Expression) :
    ∃ found, Derives .equality (expressionTokens expression) found ∧
      found.relabel .details = expression.relabel .details := by
  obtain ⟨found, derived, like⟩ := derives_expressionTokens expression
  exact ⟨found, derived.loosen (Layer.equality_le _), like⟩

mutual

/-- A statement is read off the front of its tokens, up to details. -/
theorem reads_statementTokens
    (statement : Statement)
    (rest : List Token) :
    ∃ found, ReadsStatement (statementTokens .restored statement ++ rest) rest found ∧
      found.relabel .details = statement.relabel .details := by
  cases statement with
  | declare type name value span =>
      obtain ⟨found, derived, like⟩ := derives_equality value
      refine ⟨.declare .integer ⟨name.text, name.span⟩ found span, ?_, ?_⟩
      · simp only [statementTokens, List.cons_append, List.append_assoc, List.nil_append]
        exact .declare rfl rfl rfl rfl derived rfl
      · simp only [Statement.relabel, like]
        rfl
  | assign name value span =>
      obtain ⟨found, derived, like⟩ := derives_equality value
      refine ⟨.assign ⟨name.text, name.span⟩ found span, ?_, ?_⟩
      · simp only [statementTokens, List.cons_append, List.append_assoc, List.nil_append]
        exact .assign rfl rfl derived rfl
      · simp only [Statement.relabel, like]
  | print value span =>
      obtain ⟨found, derived, like⟩ := derives_equality value
      refine ⟨.print found span, ?_, ?_⟩
      · simp only [statementTokens, List.cons_append, List.append_assoc, List.nil_append]
        exact .print rfl rfl derived rfl rfl
      · simp only [Statement.relabel, like]
  | ifThen condition consequent span =>
      obtain ⟨found, derived, like⟩ := derives_equality condition
      obtain ⟨block, blockRead, blockLike⟩ := reads_blockTokens consequent rest
      refine ⟨.ifThen found block span, ?_, ?_⟩
      · simp only [statementTokens, List.cons_append, List.append_assoc]
        exact .ifThen rfl rfl derived rfl blockRead
      · simp only [Statement.relabel, like, blockLike]
  | ifElse condition consequent alternate span =>
      obtain ⟨found, derived, like⟩ := derives_equality condition
      obtain ⟨other, otherRead, otherLike⟩ := reads_blockTokens alternate rest
      obtain ⟨block, blockRead, blockLike⟩ := reads_blockTokens consequent
        (bare (.keyword .alternative) "else" :: (blockTokens .restored alternate ++ rest))
      refine ⟨.ifElse found block other span, ?_, ?_⟩
      · simp only [statementTokens, List.cons_append, List.append_assoc]
        exact .ifElse rfl rfl derived rfl blockRead rfl otherRead
      · simp only [Statement.relabel, like, blockLike, otherLike]
  | loop condition body span =>
      obtain ⟨found, derived, like⟩ := derives_equality condition
      obtain ⟨block, blockRead, blockLike⟩ := reads_blockTokens body rest
      refine ⟨.loop found block span, ?_, ?_⟩
      · simp only [statementTokens, List.cons_append, List.append_assoc]
        exact .loop rfl rfl derived rfl blockRead
      · simp only [Statement.relabel, like, blockLike]

theorem reads_blockTokens
    (block : Block)
    (rest : List Token) :
    ∃ found, ReadsBlock (blockTokens .restored block ++ rest) rest found ∧
      found.relabel .details = block.relabel .details := by
  cases block with
  | mk body span =>
      obtain ⟨found, bodyRead, like⟩ :=
        reads_statementsTokens body (bare .punctuation "\x7d" :: rest)
      refine ⟨.mk found span, ?_, ?_⟩
      · simp only [blockTokens, List.cons_append, List.append_assoc, List.nil_append]
        exact .closed rfl bodyRead rfl
      · simp only [Block.relabel, like]

theorem reads_statementsTokens
    (statements : List Statement)
    (rest : List Token) :
    ∃ found, ReadsBody (statementsTokens .restored statements ++ rest) rest found ∧
      relabelAll .details found = relabelAll .details statements := by
  cases statements with
  | nil =>
      exact ⟨[], .nil, rfl⟩
  | cons statement more =>
      obtain ⟨others, othersRead, othersLike⟩ := reads_statementsTokens more rest
      obtain ⟨found, foundRead, like⟩ :=
        reads_statementTokens statement (statementsTokens .restored more ++ rest)
      refine ⟨found :: others, ?_, ?_⟩
      · simp only [statementsTokens, List.append_assoc]
        exact .cons foundRead othersRead
      · simp only [relabelAll, like, othersLike]

end

/-- The restored tokens of a rendered program are a sentence for it, up to details. -/
theorem sentence_restoreKeywords
    {program : Program}
    (writable : program.Writable) :
    ∃ found, Sentence (restoreKeywords (Token.scan (Render.program program))) found ∧
      found.relabel .details = program.relabel .details := by
  obtain ⟨body, bodyRead, like⟩ :=
    reads_statementsTokens program.body [bare .endOfInput ""]
  have scanned := map_unplaced_restoreKeywords_scan writable
  -- The tokens of the program have no places, so to forget these again changes nothing.
  have same := congrArg (List.map unplaced) scanned
  rw [List.map_map, show unplaced ∘ unplaced = unplaced from rfl] at same
  obtain ⟨last, lastSame, placed⟩ := bodyRead.of_unplaced same
  obtain ⟨finish, rfl, finishSame⟩ := List.map_eq_singleton_iff.mp lastSame
  refine ⟨⟨body, program.span⟩, ⟨finish, ?_, placed⟩, ?_⟩
  · exact (role_of_unplaced finishSame).1
  · simp only [Program.relabel, like]

/-- Read rendered text as a program: scan it, restore its keywords and parse the tokens. -/
def readBack (text : String) : Except SyntaxError Program :=
  Reader.parseTokens (.ofText text) (restoreKeywords (Token.scan text))

/--
The text of a rendered program is read back as the same program.

When the keywords of its tokens are restored, the parser finds a tree that differs
in spans, texts of literals and declared types only, or too much of the tree is
open at once, which does not happen in fewer tokens than may be open; there is no
other tree and no other error.
-/
theorem readBack_program
    (program : Program)
    (writable : program.Writable) :
    (∃ found, readBack (Render.program program) = .ok found ∧
        found.relabel .details = program.relabel .details) ∨
      ∃ error, readBack (Render.program program) = .error error ∧
        error.code = SyntaxError.limitExceeded ∧
          Reader.maxNesting ≤ (Token.scan (Render.program program)).length := by
  obtain ⟨sentence, derived, like⟩ := sentence_restoreKeywords writable
  have parses := Reader.parseTokens_of_sentence derived (.ofText (Render.program program))
  rw [length_restoreKeywords] at parses
  apply parses.imp_left
  rintro ⟨found, parsed, foundLike⟩
  exact ⟨found, parsed, (Program.relabel_details_of_spans foundLike).trans like⟩

/-- A program whose variables have the names of the words that are restored. -/
def shadowing : Program :=
  let span := Span.point .first
  let word : Name := ⟨"let", span⟩
  let sink : Name := ⟨printSink, span⟩
  let number (value : Float) : Expression := .literal (.number value) "" span
  let difference (left right : Expression) : Expression := .binary .subtract left right span
  let inner : Expression := difference (.name "let" span) (.name printSink span)
  ⟨[.declare .float word (number 0.25) span,
    .declare .string sink (.literal (.string "// \x7b\n") "" span) span,
    .loop (.binary .less inner (number 1e20) span)
      (.mk [.assign word (difference (.name "let" span) inner) span] span) span,
    .ifElse (.name "let" span) (.mk [] span) (.mk [.print (.name printSink span) span] span) span],
   span⟩

/-- The program `shadowing` is read back. -/
theorem readBack_shadowing :
    shadowing.Writable ∧
      ∃ found, readBack (Render.program shadowing) = .ok found ∧
        found.relabel .details = shadowing.relabel .details := by
  have word : IsIdentifier "let" := ⟨⟨⟨1, 1⟩, ⟨1, 3⟩⟩, ⟨1, 4⟩, by decide +kernel⟩
  have sink : IsIdentifier printSink := ⟨⟨⟨1, 1⟩, ⟨1, 7⟩⟩, ⟨1, 8⟩, by decide +kernel⟩
  have small : NumberStyle.IsPositional 0.25 := .inr (by decide +kernel)
  have large : NumberStyle.IsPositional 1e20 := .inr (by decide +kernel)
  have text : '"' ∉ "// \x7b\n".toList := by decide
  have writable : shadowing.Writable := by
    simp only [shadowing, Program.Writable, writableAll, Statement.Writable, Block.Writable,
      Expression.Writable, Literal.Writable, and_true, true_and]
    exact ⟨⟨word, small⟩, ⟨sink, text⟩, ⟨⟨⟨word, sink⟩, large⟩, word, word, word, sink⟩, word, sink⟩
  refine ⟨writable, (readBack_program shadowing writable).resolve_right ?_⟩
  rintro ⟨error, -, -, long⟩
  have short : (Token.scan (Render.program shadowing)).length < Reader.maxNesting := by
    decide +kernel
  exact absurd long (Nat.not_le.mpr short)

end Render

end Bhasha
