import Bhasha.Syntax.Error
import Bhasha.Syntax.Reader.Step

namespace Bhasha

/-!
# Parsing

A list of tokens is read up to its first end of input.  `Reader.parseTokens`
gives the program that the tokens make, or the syntax error at the first token
that is refused.
-/

namespace Reader

namespace Refusal

/-- The operator texts that have a use. -/
def knownOperators : List String := "=" :: BinaryOperator.all.map BinaryOperator.symbol

/-- An operator token whose text is none of the known operators. -/
def isUnknownOperator (token : Token) : Bool :=
  match token.kind with
  | .operator => !knownOperators.contains token.lexeme
  | _ => false

/-- A reserved word that no statement uses. -/
def isReservedWord (token : Token) : Bool :=
  match token.kind with
  | .keyword keyword => keyword.isReserved
  | _ => false

/-- The code of an error at a token that is not wanted. -/
def codeOf (token : Token) : Nat :=
  if token.isFinish then SyntaxError.unexpectedEndOfInput
  else if isReservedWord token then SyntaxError.reservedWord
  else if isUnknownOperator token then SyntaxError.unknownOperator
  else SyntaxError.unexpectedToken

/-- The suggestion for a token that is not wanted, if there is one. -/
def suggestionFor (token : Token) : Option String :=
  if isReservedWord token then
    some s!"'{token.lexeme}' is reserved for a future version and cannot be used yet"
  else if isUnknownOperator token then
    let known := String.intercalate " " knownOperators
    some s!"'{token.lexeme}' is not an operator; use one of {known}"
  else none

/-- The syntax error for a token that is refused. -/
def toError (source : Source) (token : Token) (refusal : Refusal) : SyntaxError :=
  let sourceLine := (source.line? token.span.start.line).getD ""
  let error := fun code =>
    SyntaxError.atToken source.name code token.lexeme token.span sourceLine
  match refusal with
  | wanted what => error (codeOf token) (some what.hint) (suggestionFor token)
  | nesting =>
      error SyntaxError.limitExceeded none
        (some s!"nesting is limited to {maxNesting} levels; split the expression")
  | operators =>
      error SyntaxError.limitExceeded none
        (some (s!"an expression holds at most {maxOperators} operators; " ++
          "store part of it in a variable"))

end Refusal

/-- The end of a list of tokens that has none: one column after its last token, modulo the bound. -/
def finishAfter (tokens : List Token) : Token :=
  match tokens.getLast? with
  | some token =>
      Token.finish ⟨token.span.stop.line, (token.span.stop.column + 1) % Position.bound⟩
  | none => Token.finish Position.first

/-- The first end of input in a list of tokens, or the end that it lacks. -/
def finishOf (tokens : List Token) : Token :=
  (tokens.find? Token.isFinish).getD (finishAfter tokens)

/-- The tokens before the first end of input. -/
def itemsOf (tokens : List Token) : List Token :=
  tokens.takeWhile fun token => !token.isFinish

/-- The statements of some tokens and the span of the last one, or the refused token and why. -/
def read
    (bounds : Bounds)
    (tokens : List Token) : Except (Token × Refusal) (List Statement × Span) :=
  match State.initial.steps bounds (itemsOf tokens) with
  | .error refused => .error refused
  | .ok state =>
      match state.finish with
      | .ok body => .ok (body, state.last)
      | .error refusal => .error (finishOf tokens, refusal)

/-- The span of a program: from its first token to its last, or the end of an empty one. -/
def programSpan (tokens : List Token) (last : Span) : Span :=
  match itemsOf tokens with
  | [] => (finishOf tokens).span
  | token :: _ => token.span.merge last

/-- The program of a list of tokens, or the error at the first token that is refused. -/
def parseTokens (source : Source) (tokens : List Token) : Except SyntaxError Program :=
  match read .standard tokens with
  | .ok (body, last) => .ok ⟨body, programSpan tokens last⟩
  | .error (token, refusal) => .error (refusal.toError source token)

end Reader

end Bhasha
