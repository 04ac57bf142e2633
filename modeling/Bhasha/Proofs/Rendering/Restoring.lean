import Bhasha.Proofs.Rendering.Tokens

namespace Bhasha

/-!
# Restored keywords

Rendered text starts a declaration with a word and a call of the print sink with
a name that are no reserved words.  `Token.restoreKeywords` makes keywords of
them where the next token shows what they are; in the tokens of a rendered
program these places are the starts of its declarations and calls, and a variable
of the same name is left alone.
-/

namespace Token

/-- The kind of a token in rendered text, given the token after it. -/
def restoredKind (token : Token) : Option Token → TokenKind
  | none => token.kind
  | some next =>
      if token.kind = .identifier ∧ token.lexeme = "let" ∧ next.kind = .identifier then
        .keyword .integer
      else if token.kind = .identifier ∧ token.lexeme = Render.printSink ∧
          next.kind = .punctuation ∧ next.lexeme = "(" then
        .keyword .print
      else token.kind

/-- The tokens of rendered text with the keywords that start declarations and calls. -/
def restoreKeywords : List Token → List Token
  | [] => []
  | token :: rest => { token with kind := token.restoredKind rest.head? } :: restoreKeywords rest

/-- Restoring keywords keeps every token. -/
theorem length_restoreKeywords (tokens : List Token) :
    (restoreKeywords tokens).length = tokens.length := by
  induction tokens with
  | nil =>
      rfl
  | cons token rest inductionHypothesis =>
      rw [restoreKeywords, List.length_cons, List.length_cons, inductionHypothesis]

/-- Restoring keywords does not look at the places of tokens. -/
theorem map_unplaced_restoreKeywords (tokens : List Token) :
    (restoreKeywords tokens).map unplaced = restoreKeywords (tokens.map unplaced) := by
  induction tokens with
  | nil =>
      rfl
  | cons token rest inductionHypothesis =>
      simp only [restoreKeywords, List.map_cons, inductionHypothesis]
      cases rest <;> rfl

/-- Only an identifier is restored. -/
theorem restoreKeywords_cons_of_ne
    {token : Token}
    (other : token.kind ≠ .identifier)
    (rest : List Token) :
    restoreKeywords (token :: rest) = token :: restoreKeywords rest := by
  have same : token.restoredKind rest.head? = token.kind := by
    cases rest <;> simp [restoredKind, other]
  rw [restoreKeywords, same]

/-- A token after which an identifier keeps its kind. -/
def Keeps (next : Token) : Prop :=
  next.kind ≠ .identifier ∧ ¬ (next.kind = .punctuation ∧ next.lexeme = "(")

/-- An identifier keeps its kind before a token that is neither an identifier nor opens. -/
theorem restoreKeywords_cons_of_keeps
    {next : Token}
    (keeps : next.Keeps)
    (token : Token)
    (rest : List Token) :
    restoreKeywords (token :: next :: rest) = token :: restoreKeywords (next :: rest) := by
  have same : token.restoredKind (some next) = token.kind := by
    simp [restoredKind, keeps.1, keeps.2]
  rw [restoreKeywords, List.head?_cons, same]

end Token

namespace Render

open Token

theorem keeps_operator (symbol : String) :
    (bare .operator symbol).Keeps := by
  simp [Keeps, bare]

theorem keeps_closing : (bare .punctuation ")").Keeps := by
  simp [Keeps, bare]

theorem keeps_semicolon : (bare .punctuation ";").Keeps := by
  simp [Keeps, bare]

theorem restoreKeywords_wrappedTokens
    {tokens : List Token}
    (inner : ∀ {next : Token} {rest : List Token}, next.Keeps →
      restoreKeywords (tokens ++ next :: rest) = tokens ++ restoreKeywords (next :: rest))
    (parens : Bool)
    {next : Token} {rest : List Token}
    (keeps : next.Keeps) :
    restoreKeywords (wrappedTokens parens tokens ++ next :: rest) =
      wrappedTokens parens tokens ++ restoreKeywords (next :: rest) := by
  cases parens with
  | false =>
      exact inner keeps
  | true =>
      simp only [wrappedTokens, if_true, List.cons_append, List.append_assoc, List.nil_append]
      rw [restoreKeywords_cons_of_ne (by simp [bare]), inner keeps_closing,
        restoreKeywords_cons_of_ne (by simp [bare])]

/-- The tokens of an expression are kept. -/
theorem restoreKeywords_expressionTokens (expression : Expression) :
    ∀ {next : Token} {rest : List Token}, next.Keeps →
      restoreKeywords (expressionTokens expression ++ next :: rest) =
        expressionTokens expression ++ restoreKeywords (next :: rest) := by
  induction expression with
  | literal value raw span =>
      intro next rest keeps
      exact restoreKeywords_cons_of_keeps keeps _ rest
  | name text span =>
      intro next rest keeps
      exact restoreKeywords_cons_of_keeps keeps _ rest
  | binary operator left right span leftKept rightKept =>
      intro next rest keeps
      simp only [expressionTokens, List.append_assoc, List.cons_append]
      rw [restoreKeywords_wrappedTokens leftKept _ (keeps_operator _),
        restoreKeywords_cons_of_ne (by simp [bare]),
        restoreKeywords_wrappedTokens rightKept _ keeps]

/-- The tokens of an assigned value are kept. -/
theorem restoreKeywords_assigned
    (name : String)
    (value : Expression)
    (rest : List Token) :
    restoreKeywords (bare .identifier name :: bare .operator "=" ::
        (expressionTokens value ++ bare .punctuation ";" :: rest)) =
      bare .identifier name :: bare .operator "=" ::
        (expressionTokens value ++ bare .punctuation ";" :: restoreKeywords rest) := by
  rw [restoreKeywords_cons_of_keeps (keeps_operator _), restoreKeywords_cons_of_ne (by simp [bare]),
    restoreKeywords_expressionTokens value keeps_semicolon,
    restoreKeywords_cons_of_ne (by simp [bare])]

/-- The tokens of an expression in parentheses are kept. -/
theorem restoreKeywords_condition
    (condition : Expression)
    (rest : List Token) :
    restoreKeywords (bare .punctuation "(" ::
        (expressionTokens condition ++ bare .punctuation ")" :: rest)) =
      bare .punctuation "(" ::
        (expressionTokens condition ++ bare .punctuation ")" :: restoreKeywords rest) := by
  rw [restoreKeywords_cons_of_ne (by simp [bare]),
    restoreKeywords_expressionTokens condition keeps_closing,
    restoreKeywords_cons_of_ne (by simp [bare])]

/-- The word before a declared name is restored. -/
theorem restoreKeywords_declaration
    (name : String)
    (rest : List Token) :
    restoreKeywords (bare .identifier "let" :: bare .identifier name :: rest) =
      bare (.keyword .integer) "let" :: restoreKeywords (bare .identifier name :: rest) :=
  rfl

/-- The name of the print sink before its parenthesis is restored. -/
theorem restoreKeywords_sink (rest : List Token) :
    restoreKeywords (bare .identifier printSink :: bare .punctuation "(" :: rest) =
      bare (.keyword .print) printSink :: restoreKeywords (bare .punctuation "(" :: rest) :=
  rfl

mutual

/-- The keywords of a statement are restored. -/
theorem restoreKeywords_statementTokens
    (statement : Statement)
    (rest : List Token) :
    restoreKeywords (statementTokens .scanned statement ++ rest) =
      statementTokens .restored statement ++ restoreKeywords rest := by
  cases statement with
  | declare type name value span =>
      simp only [statementTokens, List.cons_append, List.append_assoc, List.nil_append]
      exact (restoreKeywords_declaration _ _).trans
        (congrArg _ (restoreKeywords_assigned name.text value rest))
  | assign name value span =>
      simp only [statementTokens, List.cons_append, List.append_assoc, List.nil_append]
      exact restoreKeywords_assigned name.text value rest
  | print value span =>
      simp only [statementTokens, List.cons_append, List.append_assoc, List.nil_append]
      apply (restoreKeywords_sink _).trans
      rw [restoreKeywords_condition, restoreKeywords_cons_of_ne (by simp [bare])]
      rfl
  | ifThen condition consequent span =>
      simp only [statementTokens, List.cons_append, List.append_assoc]
      rw [restoreKeywords_cons_of_ne (by simp [bare]), restoreKeywords_condition,
        restoreKeywords_blockTokens consequent]
  | ifElse condition consequent alternate span =>
      simp only [statementTokens, List.cons_append, List.append_assoc]
      rw [restoreKeywords_cons_of_ne (by simp [bare]), restoreKeywords_condition,
        restoreKeywords_blockTokens consequent, restoreKeywords_cons_of_ne (by simp [bare]),
        restoreKeywords_blockTokens alternate]
  | loop condition body span =>
      simp only [statementTokens, List.cons_append, List.append_assoc]
      rw [restoreKeywords_cons_of_ne (by simp [bare]), restoreKeywords_condition,
        restoreKeywords_blockTokens body]

theorem restoreKeywords_blockTokens
    (block : Block)
    (rest : List Token) :
    restoreKeywords (blockTokens .scanned block ++ rest) =
      blockTokens .restored block ++ restoreKeywords rest := by
  cases block with
  | mk body span =>
      simp only [blockTokens, List.cons_append, List.append_assoc, List.nil_append]
      rw [restoreKeywords_cons_of_ne (by simp [bare]), restoreKeywords_statementsTokens body,
        restoreKeywords_cons_of_ne (by simp [bare])]

theorem restoreKeywords_statementsTokens
    (statements : List Statement)
    (rest : List Token) :
    restoreKeywords (statementsTokens .scanned statements ++ rest) =
      statementsTokens .restored statements ++ restoreKeywords rest := by
  cases statements with
  | nil =>
      rfl
  | cons statement more =>
      simp only [statementsTokens, List.append_assoc]
      rw [restoreKeywords_statementTokens statement, restoreKeywords_statementsTokens more]

end

/-- The tokens of a rendered program with its keywords, without their places. -/
theorem map_unplaced_restoreKeywords_scan
    {program : Program}
    (writable : program.Writable) :
    (restoreKeywords (Token.scan (Render.program program))).map unplaced =
      statementsTokens .restored program.body ++ [bare .endOfInput ""] := by
  rw [map_unplaced_restoreKeywords, map_unplaced_scan writable,
    restoreKeywords_statementsTokens]
  rfl

end Render

end Bhasha
