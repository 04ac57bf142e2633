import Bhasha.Number.Display
import Bhasha.Text.Blank

namespace Bhasha

/-!
# JSON values and their written forms

Objects keep their members in order.  `Json.compact` writes a value on one line
without blanks, `Json.pretty` writes one item or member a line and indents by
two blanks a level.  Only the quote, the backslash and the characters below
U+0020 are escaped.
-/

/-- A JSON value; whole numbers are kept apart from numbers with a point or an exponent. -/
inductive Json where
  | null
  | bool (value : Bool)
  | integer (value : Int)
  | number (value : Float)
  | string (value : String)
  | list (items : List Json)
  | object (members : List (String × Json))

namespace Json

/-- A natural number as a JSON value. -/
def natural (value : Nat) : Json := .integer value

/-- A list of texts as a JSON value. -/
def texts (values : List String) : Json := .list (values.map .string)

/-- A member that is present only when it has a value. -/
def optional (name : String) : Option Json → List (String × Json)
  | some value => [(name, value)]
  | none => []

/-- A digit of a number to the base sixteen, in lower case. -/
def hexDigit (value : Nat) : Char :=
  if value < 10 then Char.ofNat (value + '0'.toNat) else Char.ofNat (value - 10 + 'a'.toNat)

/-- The form of a character inside a written text. -/
def escape (c : Char) : List Char :=
  if c = '"' then ['\\', '"']
  else if c = '\\' then ['\\', '\\']
  else if c = '\n' then ['\\', 'n']
  else if c = '\r' then ['\\', 'r']
  else if c = '\t' then ['\\', 't']
  else if c = '\x08' then ['\\', 'b']
  else if c = '\x0c' then ['\\', 'f']
  else if c.toNat < 0x20 then
    ['\\', 'u', '0', '0', hexDigit (c.toNat / 16), hexDigit (c.toNat % 16)]
  else [c]

/-- Write a text in quotes after what is already written. -/
def quoteTo (out : String) (text : String) : String :=
  (text.toList.foldl (fun out c => (escape c).foldl String.push out) (out.push '"')).push '"'

mutual

/-- Write a value on one line after what is already written. -/
def compactTo (out : String) : Json → String
  | .null => out ++ "null"
  | .bool value => out ++ (if value then "true" else "false")
  | .integer value => out ++ toString value
  | .number value => out ++ NumberStyle.json.write value
  | .string value => quoteTo out value
  | .list items => (compactItemsTo (out.push '[') true items).push ']'
  | .object members => (compactMembersTo (out.push '\x7b') true members).push '\x7d'

/-- Write the items of a list, each after a comma except the first. -/
def compactItemsTo (out : String) (isFirst : Bool) : List Json → String
  | [] => out
  | item :: items =>
      let out := if isFirst then out else out.push ','
      compactItemsTo (compactTo out item) false items

/-- Write the members of an object, each after a comma except the first. -/
def compactMembersTo (out : String) (isFirst : Bool) : List (String × Json) → String
  | [] => out
  | (name, value) :: members =>
      let out := if isFirst then out else out.push ','
      compactMembersTo (compactTo ((quoteTo out name).push ':') value) false members

end

/-- A value written on one line without blanks. -/
def compact (value : Json) : String := compactTo "" value

/-- Start a line that is indented by some levels. -/
def newLineTo (out : String) (level : Nat) : String :=
  out.push '\n' ++ Text.indent level

mutual

/-- Write a value over several lines after what is already written. -/
def prettyTo (out : String) (level : Nat) : Json → String
  | .null => out ++ "null"
  | .bool value => out ++ (if value then "true" else "false")
  | .integer value => out ++ toString value
  | .number value => out ++ NumberStyle.json.write value
  | .string value => quoteTo out value
  | .list [] => out ++ "[]"
  | .list (item :: items) =>
      let first := prettyTo (newLineTo (out.push '[') (level + 1)) (level + 1) item
      (newLineTo (prettyItemsTo first (level + 1) items) level).push ']'
  | .object [] => (out.push '\x7b').push '\x7d'
  | .object ((name, value) :: members) =>
      let start := quoteTo (newLineTo (out.push '\x7b') (level + 1)) name ++ ": "
      let first := prettyTo start (level + 1) value
      (newLineTo (prettyMembersTo first (level + 1) members) level).push '\x7d'

/-- Write further items of a list, each on a line of its own. -/
def prettyItemsTo (out : String) (level : Nat) : List Json → String
  | [] => out
  | item :: items =>
      prettyItemsTo (prettyTo (newLineTo (out.push ',') level) level item) level items

/-- Write further members of an object, each on a line of its own. -/
def prettyMembersTo (out : String) (level : Nat) : List (String × Json) → String
  | [] => out
  | (name, value) :: members =>
      let start := quoteTo (newLineTo (out.push ',') level) name ++ ": "
      prettyMembersTo (prettyTo start level value) level members

end

/-- A value written with one item or member a line. -/
def pretty (value : Json) : String := prettyTo "" 0 value

end Json

end Bhasha
