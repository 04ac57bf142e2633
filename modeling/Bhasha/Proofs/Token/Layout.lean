import Bhasha.Token.Scan

namespace Bhasha

/-!
# Layouts of tokens in a text

A layout places tokens at offsets of a text and says what stands between them.
`Spells` is the rule of each kind of token, with the condition on the following
text that makes the token as long as its rule allows; `Gap` is what lies between
two tokens; and `Laid` puts both along the whole text.  Nothing here mentions
how a text is scanned.
-/

namespace Position

/-- The place of an offset: the line feeds before it, and the characters since the last of them. -/
def ofOffset (text : List Char) (offset : Nat) : Position :=
  let before := text.take offset
  ⟨1 + before.count '\n', 1 + (before.reverse.takeWhile (· ≠ '\n')).length⟩

end Position

/-- A text does not start with a character of a class. -/
def NotAhead (test : Char → Bool) (text : List Char) : Prop :=
  ∀ c rest, text = c :: rest → test c = false

/-- Two slashes start a comment. -/
def isCommentStart : List Char → Bool
  | '/' :: '/' :: _ => true
  | _ => false

/-- A character that neither separates tokens nor starts one. -/
def isDropped (c : Char) : Bool :=
  !(Text.isBlank c || Reading.isDigit c || c = '"' || isNameStart c || isOperatorStart c ||
    isPunctuation c)

/-- The kind and the lexeme of a token that is written as a stretch before the rest of a text. -/
inductive Spells : TokenKind → String → List Char → List Char → Prop where
  | whole {digits rest : List Char} :
      digits ≠ [] →
      digits.all Reading.isDigit →
      NotAhead (fun c => Reading.isDigit c || c = '.') rest →
      Spells (.number (Reading.readLiteral digits)) (String.ofList digits) digits rest
  | decimal {digits decimals rest : List Char} :
      digits ≠ [] →
      digits.all Reading.isDigit →
      decimals.all Reading.isDigit →
      NotAhead Reading.isDigit rest →
      Spells (.number (Reading.readLiteral (digits ++ '.' :: decimals)))
        (String.ofList (digits ++ '.' :: decimals)) (digits ++ '.' :: decimals) rest
  | closed {body rest : List Char} :
      '"' ∉ body →
      Spells .string (String.ofList body) ('"' :: (body ++ ['"'])) rest
  | unterminated {body : List Char} :
      '"' ∉ body →
      Spells .string (String.ofList body) ('"' :: body) []
  | keyword {start : Char} {word rest : List Char} {keyword : Keyword} :
      isNameStart start →
      word.all isNamePart →
      NotAhead isNamePart rest →
      Keyword.ofWord? (String.ofList (start :: word)) = some keyword →
      Spells (.keyword keyword) (String.ofList (start :: word)) (start :: word) rest
  | identifier {start : Char} {word rest : List Char} :
      isNameStart start →
      word.all isNamePart →
      NotAhead isNamePart rest →
      Keyword.ofWord? (String.ofList (start :: word)) = none →
      Spells .identifier (String.ofList (start :: word)) (start :: word) rest
  | operator {c : Char} {rest : List Char} :
      isOperatorStart c →
      NotAhead (· = '=') rest →
      isCommentStart (c :: rest) = false →
      Spells .operator (String.ofList [c]) [c] rest
  | operatorEqual {c : Char} {rest : List Char} :
      isOperatorStart c →
      Spells .operator (String.ofList [c, '=']) [c, '='] rest
  | punctuation {c : Char} {rest : List Char} :
      isPunctuation c →
      Spells .punctuation (String.ofList [c]) [c] rest

/-- Blanks, comments and dropped characters before the rest of a text. -/
inductive Gap : List Char → List Char → Prop where
  | none {rest : List Char} :
      Gap [] rest
  | blank {c : Char} {gap rest : List Char} :
      Text.isBlank c →
      Gap gap rest →
      Gap (c :: gap) rest
  | comment {body gap rest : List Char} :
      '\n' ∉ body →
      NotAhead (· ≠ '\n') (gap ++ rest) →
      Gap gap rest →
      Gap ('/' :: '/' :: body ++ gap) rest
  | dropped {c : Char} {gap rest : List Char} :
      isDropped c →
      Gap gap rest →
      Gap (c :: gap) rest

/-- A token with the offsets of its first character and of the character after its last. -/
structure Placed where
  token : Token
  first : Nat
  past : Nat

/-- Tokens that are laid along a text from an offset to its end. -/
inductive Laid (text : List Char) : Nat → List Placed → Prop where
  | finish {offset : Nat} :
      offset ≤ text.length →
      Gap (text.drop offset) [] →
      Laid text offset []
  | token {offset : Nat} {placed : Placed} {rest : List Placed} :
      offset ≤ placed.first →
      placed.first < placed.past →
      placed.past ≤ text.length →
      Gap (text.extract offset placed.first) (text.drop placed.first) →
      Spells placed.token.kind placed.token.lexeme
        (text.extract placed.first placed.past) (text.drop placed.past) →
      placed.token.span.start = .ofOffset text placed.first →
      (text[placed.past - 1]? ≠ some '\n' →
        placed.token.span.stop = .ofOffset text (placed.past - 1)) →
      Laid text placed.past rest →
      Laid text offset (placed :: rest)

end Bhasha
