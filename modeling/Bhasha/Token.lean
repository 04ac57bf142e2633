import Bhasha.Keyword
import Bhasha.Operator
import Bhasha.Position

namespace Bhasha

/-!
# Tokens

A token is a kind, the text it was written as, and the span of that text.  The
grammar does not look at kinds and texts directly but at the role of a token,
`Token.role`, which is all that decides how a token may be used.
-/

/-- The kind of a token; a number carries its value. -/
inductive TokenKind where
  | keyword (keyword : Keyword)
  | identifier
  | number (value : Float)
  | string
  | operator
  | punctuation
  | endOfInput
  deriving DecidableEq

namespace TokenKind

/-- The name of a kind in listings of tokens. -/
def name : TokenKind → String
  | keyword _ => "Keyword"
  | identifier => "Identifier"
  | number _ => "Number"
  | string => "String"
  | operator => "Operator"
  | punctuation => "Punctuation"
  | endOfInput => "EndOfInput"

end TokenKind

/-- What a token is to the grammar. -/
inductive Role where
  | keyword (keyword : Keyword)
  | identifier
  | number (value : Float)
  | string
  | assign
  | binary (operator : BinaryOperator)
  | openParen
  | closeParen
  | openBrace
  | closeBrace
  | semicolon
  | unusable
  | endOfInput
  deriving DecidableEq

/-- A token with its text and its place; the text of a string has no quotes. -/
structure Token where
  kind : TokenKind
  lexeme : String
  span : Span
  deriving DecidableEq

namespace Token

/-- The token that ends every list of tokens. -/
def finish (position : Position) : Token :=
  ⟨.endOfInput, "", Span.point position⟩

/-- The token marks the end of the input. -/
def isFinish (token : Token) : Bool :=
  match token.kind with
  | .endOfInput => true
  | _ => false

/-- The role of an operator text: only known operators have a use. -/
def operatorRole (lexeme : String) : Role :=
  if lexeme = "=" then .assign
  else
    match BinaryOperator.ofSymbol? lexeme with
    | some operator => .binary operator
    | none => .unusable

/-- The role of a punctuation text. -/
def punctuationRole (lexeme : String) : Role :=
  if lexeme = "(" then .openParen
  else if lexeme = ")" then .closeParen
  else if lexeme = "\x7b" then .openBrace
  else if lexeme = "\x7d" then .closeBrace
  else if lexeme = ";" then .semicolon
  else .unusable

/-- What a token is to the grammar: its kind, and the text of operators and punctuation. -/
def role (token : Token) : Role :=
  match token.kind with
  | .keyword keyword => .keyword keyword
  | .identifier => .identifier
  | .number value => .number value
  | .string => .string
  | .operator => operatorRole token.lexeme
  | .punctuation => punctuationRole token.lexeme
  | .endOfInput => .endOfInput

/-- A token on one line: its place, its kind, and its text unless the input ends there. -/
def display (token : Token) : String :=
  let front := s!"{token.span.display} {token.kind.name}"
  match token.kind with
  | .endOfInput => front
  | .string => s!"{front} \"{token.lexeme}\""
  | _ => s!"{front} {token.lexeme}"

end Token

end Bhasha
