import Bhasha.Json.Read
import Bhasha.Position

namespace Bhasha

/-!
# Syntax errors

A syntax error names the token that could not be used, where it stands, and,
when it is known, what was looked for instead.  `SyntaxError.report` is the
text for people, `SyntaxError.toJson` the form for programs, and
`SyntaxError.ofJson?` reads that form back.
-/

/-- A syntax error with its message, its place, and the line it stands on. -/
structure SyntaxError where
  file : String
  code : Nat
  message : String
  token : String
  span : Span
  sourceLine : String
  expected : Option String
  suggestion : Option String
  deriving Repr, DecidableEq

namespace SyntaxError

/-- A token where another was wanted. -/
def unexpectedToken : Nat := 100

/-- The end of the input where a token was wanted. -/
def unexpectedEndOfInput : Nat := 101

/-- A word that is reserved without a use. -/
def reservedWord : Nat := 102

/-- An operator that does not exist. -/
def unknownOperator : Nat := 103

/-- Too much is open at once. -/
def limitExceeded : Nat := 104

/-- The text of an error at a token; a token without text stands for the end of the input. -/
def messageAt (line : Nat) (token : String) : String :=
  let shown := if token.isEmpty then "end of input" else token
  s!"Unexpected token at line {line}: {shown}"

/-- An error at a token, with the message that belongs to it. -/
def atToken
    (file : String)
    (code : Nat)
    (token : String)
    (span : Span)
    (sourceLine : String)
    (expected suggestion : Option String) : SyntaxError where
  file := file
  code := code
  message := messageAt span.start.line token
  token := token
  span := span
  sourceLine := sourceLine
  expected := expected
  suggestion := suggestion

/-- The code of an error as reports show it. -/
def codeText (error : SyntaxError) : String := s!"E{error.code}"

/-- The line of an error below its number, and a caret below the first character of the token. -/
def quotation (error : SyntaxError) : String :=
  if error.sourceLine.isEmpty then ""
  else
    let number := toString error.span.start.line
    let margin := Text.spaces number.length
    let caret := Text.spaces (error.span.start.column - 1)
    s!"\n{margin} |\n{number} | {error.sourceLine}\n{margin} | {caret}^"

/-- The error for people: message, expectation, quoted line and suggestion. -/
def report (error : SyntaxError) : String :=
  let head := s!"{error.file}:{error.span.display}: {error.message} [{error.codeText}]"
  let expectation :=
    match error.expected with
    | some expected => s!"\n  expected {expected}"
    | none => ""
  let help :=
    match error.suggestion with
    | some suggestion => s!"\n  help: {suggestion}"
    | none => ""
  head ++ expectation ++ error.quotation ++ help

end SyntaxError

namespace Span

/-- The members of a span in an object. -/
def members (span : Span) : List (String × Json) :=
  [("line", .natural span.start.line),
   ("column", .natural span.start.column),
   ("end_line", .natural span.stop.line),
   ("end_column", .natural span.stop.column)]

/-- A span as an object. -/
def toJson (span : Span) : Json := .object span.members

end Span

namespace SyntaxError

/-- The members of an error in an object; the hints are left out when there are none. -/
def members (error : SyntaxError) : List (String × Json) :=
  [("file", .string error.file),
   ("code", .natural error.code),
   ("message", .string error.message),
   ("token", .string error.token)] ++
  error.span.members ++
  [("source_line", .string error.sourceLine)] ++
  Json.optional "expected" (error.expected.map .string) ++
  Json.optional "suggestion" (error.suggestion.map .string)

/-- An error as an object. -/
def toJson (error : SyntaxError) : Json := .object error.members

/-- The single member with a name, read as a text. -/
def textMember? (members : List (String × Json)) (name : String) : Option String :=
  match Json.membersNamed members name with
  | [.string value] => some value
  | _ => none

/-- The single member with a name, read as a natural number below a bound. -/
def numberMember? (bound : Nat) (members : List (String × Json)) (name : String) : Option Nat :=
  match Json.membersNamed members name with
  | [.integer (.ofNat value)] => if value < bound then some value else none
  | _ => none

/-- A hint: absent when no member has the name or the member is null, else a text. -/
def hintMember? (members : List (String × Json)) (name : String) : Option (Option String) :=
  match Json.membersNamed members name with
  | [] | [.null] => some none
  | [.string value] => some (some value)
  | _ => none

/-- The span that four members name. -/
def spanMembers? (members : List (String × Json)) : Option Span := do
  let line ← numberMember? Position.bound members "line"
  let column ← numberMember? Position.bound members "column"
  let endLine ← numberMember? Position.bound members "end_line"
  let endColumn ← numberMember? Position.bound members "end_column"
  return ⟨⟨line, column⟩, ⟨endLine, endColumn⟩⟩

/-- The error that an object describes: members of other names do not matter. -/
def ofMembers? (members : List (String × Json)) : Option SyntaxError := do
  let file ← textMember? members "file"
  let code ← numberMember? (2 ^ 16) members "code"
  let message ← textMember? members "message"
  let token ← textMember? members "token"
  let span ← spanMembers? members
  let sourceLine ← textMember? members "source_line"
  let expected ← hintMember? members "expected"
  let suggestion ← hintMember? members "suggestion"
  return { file, code, message, token, span, sourceLine, expected, suggestion }

/-- The error that a value describes, if it is an object that describes one. -/
def ofJson? : Json → Option SyntaxError
  | .object members => ofMembers? members
  | _ => none

/-- The error that a JSON text describes. -/
def read? (text : String) : Option SyntaxError := do
  let value ← Json.read? text
  ofJson? value

end SyntaxError

end Bhasha
