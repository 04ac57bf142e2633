import Bhasha.Explanation
import Bhasha.Run

namespace Bhasha

/-!
# Answers for a web page

Every answer is one text.  Reports, outlines, rendered programs and tokens are
JSON texts on one line.
-/

/-- The kind of a token as a JSON value, with what the kind carries. -/
def TokenKind.toJson : TokenKind → Json
  | keyword word => .object [("Keyword", .string word.name)]
  | number value => .object [("Number", .number value)]
  | kind => .string kind.name

/-- A token as an object. -/
def Token.toJson (token : Token) : Json :=
  .object
    [("kind", token.kind.toJson), ("lexeme", .string token.lexeme), ("span", token.span.toJson)]

namespace Page

/-- The version of the program. -/
def version : String := "0.1.0"

/-- A result under a name of its own, or the syntax error in its place. -/
def answer (name : String) : Except SyntaxError Json → String
  | .ok value => (Json.object [("success", .bool true), (name, value)]).compact
  | .error error => (Json.object [("success", .bool false), ("error", error.toJson)]).compact

/-- The report of running a text under the standard limits. -/
def run (text : String) : String := ((Source.ofText text).run .standard).toJson.compact

/-- The outline of a text. -/
def outline (text : String) : String :=
  answer "ast" ((Source.ofText text).outline.map Outline.toJson)

/-- The rendered program of a text. -/
def render (text : String) : String :=
  answer "rendered" ((Source.ofText text).render.map .string)

/-- The tokens of a text. -/
def tokens (text : String) : String :=
  (Json.list ((Token.scan text).map Token.toJson)).compact

end Page

end Bhasha
