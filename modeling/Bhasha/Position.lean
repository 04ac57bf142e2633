import Bhasha.Number.Power

namespace Bhasha

/-!
# Positions and spans

A position is a line and a column, both counted from one; columns count
characters.  A span runs from the position of its first character to the
position of its last.
-/

/-- A place in a text: line and column, both counted from one. -/
structure Position where
  line : Nat
  column : Nat
  deriving Repr, DecidableEq

namespace Position

/-- Lines and columns take 32 bits wherever they are stored. -/
def bound : Nat := 2 ^ 32

/-- The place of the first character of every text. -/
def first : Position := ⟨1, 1⟩

/-- The place after a character: a line feed starts a line, all else a column. -/
def next (position : Position) (c : Char) : Position :=
  if c = '\n' then ⟨position.line + 1, 1⟩
  else ⟨position.line, position.column + 1⟩

/-- The place after a stretch of characters. -/
def after (position : Position) (text : List Char) : Position :=
  text.foldl next position

/-- The place of the character before, where the first of a line stays where it is. -/
def back (position : Position) : Position :=
  ⟨position.line, max (position.column - 1) 1⟩

/-- Positions are ordered by line, then by column. -/
instance : LT Position :=
  ⟨fun a b => a.line < b.line ∨ (a.line = b.line ∧ a.column < b.column)⟩

instance : LE Position :=
  ⟨fun a b => a.line < b.line ∨ (a.line = b.line ∧ a.column ≤ b.column)⟩

instance (a b : Position) : Decidable (a < b) :=
  inferInstanceAs (Decidable (a.line < b.line ∨ (a.line = b.line ∧ a.column < b.column)))

instance (a b : Position) : Decidable (a ≤ b) :=
  inferInstanceAs (Decidable (a.line < b.line ∨ (a.line = b.line ∧ a.column ≤ b.column)))

/-- The earlier of two positions. -/
def earlier (a b : Position) : Position := if b < a then b else a

/-- The later of two positions. -/
def later (a b : Position) : Position := if a < b then b else a

@[simp] theorem after_nil (position : Position) :
    position.after [] = position :=
  rfl

@[simp] theorem after_cons (position : Position) (c : Char) (text : List Char) :
    position.after (c :: text) = (position.next c).after text :=
  rfl

/-- Walking over two stretches is walking over the first, then the second. -/
theorem after_append (position : Position) (first second : List Char) :
    position.after (first ++ second) = (position.after first).after second :=
  List.foldl_append

end Position

/-- A stretch of text from its first position to its last, both included. -/
structure Span where
  start : Position
  stop : Position
  deriving Repr, DecidableEq

namespace Span

/-- The span that starts and ends at one position. -/
def point (position : Position) : Span := ⟨position, position⟩

/-- The smallest span that covers both. -/
def merge (a b : Span) : Span :=
  ⟨a.start.earlier b.start, a.stop.later b.stop⟩

/-- A span is shown as the line and column where it starts. -/
def display (span : Span) : String :=
  s!"{span.start.line}:{span.start.column}"

end Span

end Bhasha
