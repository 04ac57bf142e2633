import Bhasha.Proofs.Number.Written
import Bhasha.Proofs.Rendering.Text
import Bhasha.Proofs.Token.Scanning
import Bhasha.Proofs.Token.Spelling

namespace Bhasha

/-!
# The tokens of rendered programs

A tree is writable when its names are scanned as names, its texts hold no quote
and its numbers are written by position.  The tokens of its rendered text are
those of its parts in order; the words that start declarations and calls of the
print sink are scanned as names, so the tokens are given with the kinds of these
two words left open.
-/

open Token

/-- A word that is scanned as one identifier. -/
def IsIdentifier (word : String) : Prop :=
  ∃ place stop, Token.scan word = [⟨.identifier, word, place⟩, Token.finish stop]

/-- A literal whose written form is read as the same value. -/
def Literal.Writable : Literal → Prop
  | .number value => NumberStyle.IsPositional value
  | .string value => '"' ∉ value.toList

/-- An expression whose names and literals are writable. -/
def Expression.Writable : Expression → Prop
  | .literal value _ _ => value.Writable
  | .name text _ => IsIdentifier text
  | .binary _ left right _ => left.Writable ∧ right.Writable

mutual

/-- A statement whose names and literals are writable. -/
def Statement.Writable : Statement → Prop
  | .declare _ name value _ | .assign name value _ => IsIdentifier name.text ∧ value.Writable
  | .print value _ => value.Writable
  | .ifThen condition consequent _ => condition.Writable ∧ consequent.Writable
  | .ifElse condition consequent alternate _ =>
      condition.Writable ∧ consequent.Writable ∧ alternate.Writable
  | .loop condition body _ => condition.Writable ∧ body.Writable

/-- A block whose statements are writable. -/
def Block.Writable : Block → Prop
  | .mk body _ => writableAll body

/-- Statements that are all writable. -/
def writableAll : List Statement → Prop
  | [] => True
  | statement :: rest => statement.Writable ∧ writableAll rest

end

/-- A program whose names and literals are writable. -/
def Program.Writable (program : Program) : Prop :=
  writableAll program.body

/-- An identifier is spelled wherever nothing extends it. -/
theorem Spells.identifier_before
    {lexeme : String} {taken rest other : List Char}
    (spells : Spells .identifier lexeme taken rest)
    (ahead : NotAhead isNamePart other) :
    Spells .identifier lexeme lexeme.toList other := by
  cases spells with
  | identifier starts all _ found =>
      rw [String.toList_ofList]
      exact .identifier starts all ahead found

/-- A word that is scanned as an identifier is spelled wherever nothing extends it. -/
theorem IsIdentifier.spells
    {word : String} {rest : List Char}
    (isIdentifier : IsIdentifier word)
    (ahead : NotAhead isNamePart rest) :
    Spells .identifier word word.toList rest := by
  obtain ⟨place, stop, scanned⟩ := isIdentifier
  obtain ⟨placed, tokens, -, laid⟩ := tokensFrom_laid word.toList 0 (Nat.zero_le _)
  have whole := scanned.symm.trans tokens
  rcases placed with _ | ⟨entry, _ | ⟨other, more⟩⟩
  · simp at whole
  · simp only [List.map_cons, List.map_nil, List.cons_append, List.nil_append,
      List.cons.injEq] at whole
    cases laid with
    | token _ _ _ _ spells =>
        rw [← whole.1] at spells
        exact spells.identifier_before ahead
  · simp at whole

/-- A word that is spelled as an identifier somewhere is scanned as one. -/
theorem IsIdentifier.of_spells
    {word : String} {taken rest : List Char}
    (spells : Spells .identifier word taken rest) :
    IsIdentifier word := by
  have nothing : NotAhead isNamePart [] := nofun
  obtain ⟨c, more, shape, first⟩ := Stretch.first_of_spells (spells.identifier_before nothing)
  rw [List.append_nil] at first
  have found : (Stretch.first c more).token = some (.identifier, word) := by
    rw [first]
  have scanned : Token.scan word = tokensFrom .first (c :: more) := by
    rw [← shape]
    rfl
  rw [tokensFrom_cons_of_token found, first, tokensFrom_nil] at scanned
  exact ⟨_, _, scanned⟩

/-- There is no quote in the text of a string. -/
theorem Spells.noQuote
    {lexeme : String} {taken rest : List Char}
    (spells : Spells .string lexeme taken rest) :
    '"' ∉ lexeme.toList := by
  cases spells with
  | closed noQuote | unterminated noQuote =>
      rwa [String.toList_ofList]

/-- A text that starts with a character after which an expression may end. -/
def Closes (text : List Char) : Prop :=
  ∃ c rest, text = c :: rest ∧ (c = ' ' ∨ c = ')' ∨ c = ';')

/-- A class without the characters that end expressions is not extended by them. -/
theorem Closes.notAhead
    {test : Char → Bool} {text : List Char}
    (closes : Closes text)
    (others : test ' ' = false ∧ test ')' = false ∧ test ';' = false) :
    NotAhead test text := by
  obtain ⟨c, rest, rfl, ends⟩ := closes
  rintro first more ⟨⟩
  rcases ends with rfl | rfl | rfl
  · exact others.1
  · exact others.2.1
  · exact others.2.2

/-- A text of digits, or of digits around a point, is spelled as a number before other text. -/
theorem spells_plain
    {text rest : List Char}
    (plain : Reading.IsPlain text)
    (ahead : NotAhead (fun c => Reading.isDigit c || c = '.') rest) :
    Spells (.number (Reading.readLiteral text)) (String.ofList text) text rest := by
  cases plain with
  | whole some all =>
      exact .whole some all ahead
  | decimal some all allDecimals =>
      refine .decimal some all allDecimals fun c more same => ?_
      exact (Bool.or_eq_false_iff.mp (ahead c more same)).1

/-- A text of digits, or of digits around a point, is spelled as a number. -/
theorem spells_of_isPlain
    {text rest : List Char}
    (plain : Reading.IsPlain text)
    (closes : Closes rest) :
    Spells (.number (Reading.readLiteral text)) (String.ofList text) text rest :=
  spells_plain plain (closes.notAhead (by decide))

theorem spells_symbol
    (operator : BinaryOperator)
    (rest : List Char) :
    Spells .operator operator.symbol operator.symbol.toList (' ' :: rest) := by
  have blank : Closes (' ' :: rest) := ⟨' ', rest, rfl, .inl rfl⟩
  have noEqual : NotAhead (· = '=') (' ' :: rest) := blank.notAhead (by decide)
  cases operator with
  | equal | notEqual | greaterOrEqual | lessOrEqual =>
      exact .operatorEqual (by decide)
  | greater | less | add | subtract | multiply | divide | modulo =>
      exact .operator (by decide) noEqual rfl

namespace Render

/-- An operand's tokens with the parentheses that it needs. -/
def wrappedTokens (parens : Bool) (tokens : List Token) : List Token :=
  if parens then bare .punctuation "(" :: (tokens ++ [bare .punctuation ")"]) else tokens

/-- The token of a literal. -/
def literalToken : Literal → Token
  | .number value => bare (.number value) (NumberStyle.screen.write value)
  | .string value => bare .string value

/-- The tokens of an expression. -/
def expressionTokens : Expression → List Token
  | .literal value _ _ => [literalToken value]
  | .name text _ => [bare .identifier text]
  | .binary operator left right _ =>
      wrappedTokens (needsParens operator false left) (expressionTokens left) ++
        bare .operator operator.symbol ::
          wrappedTokens (needsParens operator true right) (expressionTokens right)

theorem spelled_punctuation
    {c : Char}
    (punctuation : isPunctuation c = true)
    (rest : List Char) :
    spelled (c :: rest) = bare .punctuation (String.ofList [c]) :: spelled rest :=
  spelled_append_of_spells (.punctuation punctuation)

theorem spelled_space (rest : List Char) :
    spelled (' ' :: rest) = spelled rest :=
  spelled_cons_of_blank (by decide) rest

/-- The tokens of a literal before a character that ends an expression. -/
theorem spelled_literal
    {value : Literal} {rest : List Char}
    (writable : value.Writable)
    (closes : Closes rest) :
    spelled ((literal value).toList ++ rest) = literalToken value :: spelled rest := by
  cases value with
  | number value =>
      obtain ⟨plain, read⟩ := NumberStyle.write_screen writable
      have spells := spells_of_isPlain plain closes
      rw [read, String.ofList_toList] at spells
      exact spelled_append_of_spells spells
  | string value =>
      have spells : Spells .string value ('"' :: (value.toList ++ ['"'])) rest := by
        simpa only [String.ofList_toList] using Spells.closed writable
      have text : (literal (.string value)).toList = '"' :: (value.toList ++ ['"']) := by
        simp [literal]
      rw [text]
      exact spelled_append_of_spells spells

/-- The tokens of an operand with the parentheses that it needs. -/
theorem spelled_wrapped
    {text : List Char} {tokens : List Token}
    (inner : ∀ {rest : List Char}, Closes rest → spelled (text ++ rest) = tokens ++ spelled rest)
    (parens : Bool)
    {rest : List Char}
    (closes : Closes rest) :
    spelled (wrapped parens text ++ rest) = wrappedTokens parens tokens ++ spelled rest := by
  cases parens with
  | false =>
      exact inner closes
  | true =>
      have closing : Closes (')' :: rest) := ⟨')', rest, rfl, .inr (.inl rfl)⟩
      have shape : wrapped true text ++ rest = '(' :: (text ++ ')' :: rest) := by
        simp [wrapped]
      rw [shape, spelled_punctuation (by decide), inner closing, spelled_punctuation (by decide)]
      simp [wrappedTokens]

/-- The tokens of two texts with an operator between them. -/
theorem spelled_joined
    {text other : List Char} {tokens otherTokens : List Token}
    (left : ∀ {rest : List Char}, Closes rest → spelled (text ++ rest) = tokens ++ spelled rest)
    (right : ∀ {rest : List Char}, Closes rest →
      spelled (other ++ rest) = otherTokens ++ spelled rest)
    (operator : BinaryOperator)
    {rest : List Char}
    (closes : Closes rest) :
    spelled (text ++ ' ' :: (operator.symbol.toList ++ ' ' :: other) ++ rest) =
      tokens ++ bare .operator operator.symbol :: otherTokens ++ spelled rest := by
  have blank : ∀ more : List Char, Closes (' ' :: more) :=
    fun more => ⟨' ', more, rfl, .inl rfl⟩
  simp only [List.append_assoc, List.cons_append]
  rw [left (blank _), spelled_space, spelled_append_of_spells (spells_symbol operator _),
    spelled_space, right closes]

/-- The tokens of an expression before a character that ends it. -/
theorem spelled_expressionText
    {expression : Expression}
    (writable : expression.Writable) :
    ∀ {rest : List Char}, Closes rest →
      spelled (expressionText expression ++ rest) =
        expressionTokens expression ++ spelled rest := by
  induction expression with
  | literal value raw span =>
      exact spelled_literal writable
  | name text span =>
      intro rest closes
      exact spelled_append_of_spells
        (IsIdentifier.spells writable (closes.notAhead (by decide)))
  | binary operator left right span leftSpelled rightSpelled =>
      intro rest closes
      obtain ⟨leftWritable, rightWritable⟩ := writable
      exact spelled_joined (spelled_wrapped (leftSpelled leftWritable) _)
        (spelled_wrapped (rightSpelled rightWritable) _) operator closes

/-- The kinds of the words that start declarations and calls of the print sink. -/
structure Marks where
  declaration : TokenKind
  sink : TokenKind

namespace Marks

/-- The kinds with which the two words are scanned. -/
def scanned : Marks := ⟨.identifier, .identifier⟩

/-- The kinds with which the two words are read as statements. -/
def restored : Marks := ⟨.keyword .integer, .keyword .print⟩

end Marks

mutual

/-- The tokens of a statement. -/
def statementTokens (marks : Marks) : Statement → List Token
  | .declare _ name value _ =>
      bare marks.declaration "let" :: bare .identifier name.text :: bare .operator "=" ::
        (expressionTokens value ++ [bare .punctuation ";"])
  | .assign name value _ =>
      bare .identifier name.text :: bare .operator "=" ::
        (expressionTokens value ++ [bare .punctuation ";"])
  | .print value _ =>
      bare marks.sink printSink :: bare .punctuation "(" ::
        (expressionTokens value ++ [bare .punctuation ")", bare .punctuation ";"])
  | .ifThen condition consequent _ =>
      bare (.keyword .conditional) "if" :: bare .punctuation "(" ::
        (expressionTokens condition ++ bare .punctuation ")" :: blockTokens marks consequent)
  | .ifElse condition consequent alternate _ =>
      bare (.keyword .conditional) "if" :: bare .punctuation "(" ::
        (expressionTokens condition ++ bare .punctuation ")" ::
          (blockTokens marks consequent ++
            bare (.keyword .alternative) "else" :: blockTokens marks alternate))
  | .loop condition body _ =>
      bare (.keyword .loop) "while" :: bare .punctuation "(" ::
        (expressionTokens condition ++ bare .punctuation ")" :: blockTokens marks body)

/-- The tokens of a block. -/
def blockTokens (marks : Marks) : Block → List Token
  | .mk body _ =>
      bare .punctuation "\x7b" :: (statementsTokens marks body ++ [bare .punctuation "\x7d"])

/-- The tokens of statements one after the other. -/
def statementsTokens (marks : Marks) : List Statement → List Token
  | [] => []
  | statement :: rest => statementTokens marks statement ++ statementsTokens marks rest

end

/-- The blanks in front of a statement make no token. -/
theorem spelled_indentText (level : Nat) (rest : List Char) :
    spelled (indentText level ++ rest) = spelled rest := by
  unfold indentText
  induction 2 * level with
  | zero =>
      rfl
  | succ count inductionHypothesis =>
      rw [List.replicate_succ, List.cons_append, spelled_space, inductionHypothesis]

theorem spelled_newline (rest : List Char) :
    spelled ('\n' :: rest) = spelled rest :=
  spelled_cons_of_blank (by decide) rest

/-- The sign of an assignment is a token of its own before a space. -/
theorem spelled_assign (rest : List Char) :
    spelled ('=' :: ' ' :: rest) = bare .operator "=" :: spelled rest := by
  have blank : Closes (' ' :: rest) := ⟨' ', rest, rfl, .inl rfl⟩
  have spells : Spells .operator "=" ['='] (' ' :: rest) :=
    .operator (by decide) (blank.notAhead (by decide)) rfl
  rw [← spelled_space rest]
  exact spelled_append_of_spells spells

/-- A word that is scanned as an identifier is a token of its own before a space. -/
theorem spelled_name
    {word : String}
    (isIdentifier : IsIdentifier word)
    (rest : List Char) :
    spelled (word.toList ++ ' ' :: rest) = bare .identifier word :: spelled rest := by
  have blank : Closes (' ' :: rest) := ⟨' ', rest, rfl, .inl rfl⟩
  rw [spelled_append_of_spells (isIdentifier.spells (blank.notAhead (by decide))), spelled_space]

/-- The word that starts a declaration is scanned as an identifier. -/
theorem spelled_declaration (rest : List Char) :
    spelled ('l' :: 'e' :: 't' :: ' ' :: rest) = bare .identifier "let" :: spelled rest := by
  have blank : Closes (' ' :: rest) := ⟨' ', rest, rfl, .inl rfl⟩
  have spells : Spells .identifier "let" ['l', 'e', 't'] (' ' :: rest) :=
    .identifier (by decide) (by decide) (blank.notAhead (by decide)) (by decide +kernel)
  rw [← spelled_space rest]
  exact spelled_append_of_spells spells

/-- The name of the print sink is scanned as an identifier. -/
theorem spelled_sink (rest : List Char) :
    spelled ('_' :: '_' :: 'p' :: 'r' :: 'i' :: 'n' :: 't' :: '(' :: rest) =
      bare .identifier printSink :: bare .punctuation "(" :: spelled rest := by
  have ahead : NotAhead isNamePart ('(' :: rest) := by
    rintro c more ⟨⟩
    decide
  have spells :
      Spells .identifier printSink ['_', '_', 'p', 'r', 'i', 'n', 't'] ('(' :: rest) :=
    .identifier (by decide) (by decide) ahead (by decide +kernel)
  apply (spelled_append_of_spells spells).trans
  rw [spelled_punctuation (by decide)]

theorem spelled_keyword
    {start : Char} {word : List Char} {keyword : Keyword}
    (starts : isNameStart start = true)
    (all : word.all isNamePart = true)
    (found : Keyword.ofWord? (String.ofList (start :: word)) = some keyword)
    (rest : List Char) :
    spelled (start :: word ++ ' ' :: rest) =
      bare (.keyword keyword) (String.ofList (start :: word)) :: spelled rest := by
  have blank : Closes (' ' :: rest) := ⟨' ', rest, rfl, .inl rfl⟩
  rw [spelled_append_of_spells (.keyword starts all (blank.notAhead (by decide)) found),
    spelled_space]

theorem spelled_if (rest : List Char) :
    spelled ('i' :: 'f' :: ' ' :: rest) = bare (.keyword .conditional) "if" :: spelled rest :=
  @spelled_keyword 'i' ['f'] .conditional (by decide) (by decide) (by decide +kernel) rest

theorem spelled_else (rest : List Char) :
    spelled ('e' :: 'l' :: 's' :: 'e' :: ' ' :: rest) =
      bare (.keyword .alternative) "else" :: spelled rest :=
  @spelled_keyword 'e' ['l', 's', 'e'] .alternative (by decide) (by decide) (by decide +kernel) rest

theorem spelled_while (rest : List Char) :
    spelled ('w' :: 'h' :: 'i' :: 'l' :: 'e' :: ' ' :: rest) =
      bare (.keyword .loop) "while" :: spelled rest :=
  @spelled_keyword 'w' ['h', 'i', 'l', 'e'] .loop (by decide) (by decide) (by decide +kernel) rest

/-- The tokens of an assigned value and the end of its statement. -/
theorem spelled_assigned
    {value : Expression}
    (writable : value.Writable)
    (rest : List Char) :
    spelled ('=' :: ' ' :: (expressionText value ++ ';' :: '\n' :: rest)) =
      bare .operator "=" :: (expressionTokens value ++ bare .punctuation ";" :: spelled rest) := by
  have semicolon : Closes (';' :: '\n' :: rest) := ⟨';', _, rfl, .inr (.inr rfl)⟩
  rw [spelled_assign, spelled_expressionText writable semicolon,
    spelled_punctuation (by decide), spelled_newline]

/-- The tokens of a condition in its parentheses. -/
theorem spelled_condition
    {condition : Expression}
    (writable : condition.Writable)
    (rest : List Char) :
    spelled ('(' :: (expressionText condition ++ ')' :: ' ' :: rest)) =
      bare .punctuation "(" ::
        (expressionTokens condition ++ bare .punctuation ")" :: spelled rest) := by
  have closing : Closes (')' :: ' ' :: rest) := ⟨')', _, rfl, .inr (.inl rfl)⟩
  rw [spelled_punctuation (by decide), spelled_expressionText writable closing,
    spelled_punctuation (by decide), spelled_space]

mutual

/-- The tokens of a statement before any text. -/
theorem spelled_statementText
    {statement : Statement}
    (writable : statement.Writable)
    (level : Nat)
    (rest : List Char) :
    spelled (statementText level statement ++ rest) =
      statementTokens .scanned statement ++ spelled rest := by
  cases statement with
  | declare type name value span =>
      obtain ⟨named, valueWritable⟩ := writable
      simp only [statementText, statementTokens, List.append_assoc, List.cons_append,
        List.nil_append]
      rw [spelled_declaration, spelled_name named, spelled_assigned valueWritable]
      rfl
  | assign name value span =>
      obtain ⟨named, valueWritable⟩ := writable
      simp only [statementText, statementTokens, List.append_assoc, List.cons_append,
        List.nil_append]
      rw [spelled_name named, spelled_assigned valueWritable]
  | print value span =>
      have closing : Closes (')' :: ';' :: '\n' :: rest) := ⟨')', _, rfl, .inr (.inl rfl)⟩
      simp only [statementText, statementTokens, List.append_assoc, List.cons_append,
        List.nil_append]
      rw [spelled_sink, spelled_expressionText writable closing, spelled_punctuation (by decide),
        spelled_punctuation (by decide), spelled_newline]
      rfl
  | ifThen condition consequent span =>
      obtain ⟨conditionWritable, consequentWritable⟩ := writable
      simp only [statementText, statementTokens, List.append_assoc, List.cons_append,
        List.nil_append]
      rw [spelled_if, spelled_condition conditionWritable,
        spelled_blockText consequentWritable, spelled_newline]
  | ifElse condition consequent alternate span =>
      obtain ⟨conditionWritable, consequentWritable, alternateWritable⟩ := writable
      simp only [statementText, statementTokens, List.append_assoc, List.cons_append,
        List.nil_append]
      rw [spelled_if, spelled_condition conditionWritable,
        spelled_blockText consequentWritable, spelled_space, spelled_else,
        spelled_blockText alternateWritable, spelled_newline]
  | loop condition body span =>
      obtain ⟨conditionWritable, bodyWritable⟩ := writable
      simp only [statementText, statementTokens, List.append_assoc, List.cons_append,
        List.nil_append]
      rw [spelled_while, spelled_condition conditionWritable,
        spelled_blockText bodyWritable, spelled_newline]

theorem spelled_blockText
    {block : Block}
    (writable : block.Writable)
    (level : Nat)
    (rest : List Char) :
    spelled (blockText level block ++ rest) = blockTokens .scanned block ++ spelled rest := by
  rcases block with ⟨_ | ⟨statement, more⟩, span⟩
  · simp only [blockText, blockTokens, statementsTokens, List.cons_append, List.nil_append]
    rw [spelled_punctuation (by decide), spelled_punctuation (by decide)]
  · obtain ⟨statementWritable, moreWritable⟩ := writable
    simp only [blockText, blockTokens, statementsTokens, List.append_assoc, List.cons_append,
      List.nil_append]
    rw [spelled_punctuation (by decide), spelled_newline, spelled_indentText,
      spelled_statementText statementWritable, spelled_statementsText moreWritable,
      spelled_indentText, spelled_punctuation (by decide)]

theorem spelled_statementsText
    {statements : List Statement}
    (writable : writableAll statements)
    (level : Nat)
    (rest : List Char) :
    spelled (statementsText level statements ++ rest) =
      statementsTokens .scanned statements ++ spelled rest := by
  cases statements with
  | nil =>
      rfl
  | cons statement more =>
      obtain ⟨statementWritable, moreWritable⟩ := writable
      simp only [statementsText, statementsTokens, List.append_assoc]
      rw [spelled_indentText, spelled_statementText statementWritable,
        spelled_statementsText moreWritable]

end

/-- The tokens of a rendered program, without their places. -/
theorem map_unplaced_scan
    {program : Program}
    (writable : program.Writable) :
    (Token.scan (Render.program program)).map unplaced =
      statementsTokens .scanned program.body ++ [bare .endOfInput ""] := by
  have text := spelled_statementsText writable 0 []
  rw [List.append_nil, spelled_nil, ← toList_program] at text
  exact text

end Render

end Bhasha
