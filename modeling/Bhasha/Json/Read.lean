import Bhasha.Json.Lexeme

namespace Bhasha.Json

/-!
# Reading JSON texts

The lexemes of a text are read one at a time over a stack of the lists and
objects that are still open.  `Json.read?` succeeds when the whole text is one
value and no more than `deepest` lists and objects are open at once.
-/

/-- The most lists and objects that may be open at once. -/
def deepest : Nat := 127

/-- A list or an object that is still open, with what is complete in reverse order. -/
inductive Open where
  | items (done : List Json)
  | members (done : List (String × Json)) (name : String)

/-- What the next lexeme may be. -/
inductive Expecting where
  | value
  | itemOrClose
  | nameOrClose
  | name (done : List (String × Json))
  | colon (done : List (String × Json)) (name : String)
  | after (value : Json)

/-- A place inside a text: the open lists and objects, innermost first, and what may follow. -/
structure Place where
  opened : List Open
  expecting : Expecting

namespace Place

/-- The place after a value is complete. -/
def complete (opened : List Open) (value : Json) : Place := ⟨opened, .after value⟩

/-- A value starts with this lexeme. -/
def startValue? (opened : List Open) : Lexeme → Option Place
  | .quoted value => some (complete opened (.string value))
  | .scalar value => some (complete opened value)
  | .openList =>
      if opened.length < deepest then some ⟨.items [] :: opened, .itemOrClose⟩ else none
  | .openObject =>
      if opened.length < deepest then some ⟨opened, .nameOrClose⟩ else none
  | _ => none

/-- The place after one more lexeme, if the lexeme may come here. -/
def step? (place : Place) (lexeme : Lexeme) : Option Place :=
  match place.expecting, lexeme, place.opened with
  | .value, _, opened => startValue? opened lexeme
  | .itemOrClose, .closeList, .items done :: opened => some (complete opened (.list done.reverse))
  | .itemOrClose, _, opened => startValue? opened lexeme
  | .nameOrClose, .closeObject, opened => some (complete opened (.object []))
  | .nameOrClose, .quoted name, opened => some ⟨opened, .colon [] name⟩
  | .name done, .quoted name, opened => some ⟨opened, .colon done name⟩
  | .colon done name, .colon, opened => some ⟨.members done name :: opened, .value⟩
  | .after value, .comma, .items done :: opened => some ⟨.items (value :: done) :: opened, .value⟩
  | .after value, .closeList, .items done :: opened =>
      some (complete opened (.list (value :: done).reverse))
  | .after value, .comma, .members done name :: opened =>
      some ⟨opened, .name ((name, value) :: done)⟩
  | .after value, .closeObject, .members done name :: opened =>
      some (complete opened (.object ((name, value) :: done).reverse))
  | _, _, _ => none

/-- The place after a run of lexemes. -/
def steps? (place : Place) : List Lexeme → Option Place
  | [] => some place
  | lexeme :: rest =>
      match place.step? lexeme with
      | some next => next.steps? rest
      | none => none

/-- The value that is complete at the end of a text. -/
def result? (place : Place) : Option Json :=
  match place.expecting, place.opened with
  | .after value, [] => some value
  | _, _ => none

end Place

/-- The value that a whole text writes, if it writes one. -/
def read? (text : String) : Option Json := do
  let lexemes ← lexemesFrom? #[] text.toList
  let place ← Place.steps? ⟨[], .value⟩ lexemes.toList
  place.result?

/-- The values of the members with a given name, in order. -/
def membersNamed (members : List (String × Json)) (name : String) : List Json :=
  (members.filter fun entry => entry.1 == name).map Prod.snd

end Bhasha.Json
