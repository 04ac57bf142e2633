import Bhasha.Text.Blank

namespace Bhasha

/-!
# Named program texts

A source is a program text with the name that reports show for it.  Lines end
at line feeds; the carriage returns before a line feed are not part of the line.
-/

/-- A program text and the name it is reported under. -/
structure Source where
  name : String
  text : String
  deriving Repr, DecidableEq

namespace Source

/-- The name of a program text that has no file. -/
def defaultName : String := "main.bojro"

/-- A program text under the default name. -/
def ofText (text : String) : Source := ⟨defaultName, text⟩

/-- The line with a given number of line feeds before it, if there is one. -/
def lineAfter : Nat → List Char → Option (List Char)
  | 0, text => some (text.takeWhile (· ≠ '\n'))
  | feeds + 1, text =>
      match text.dropWhile (· ≠ '\n') with
      | [] => none
      | _ :: rest => lineAfter feeds rest

/-- The text of a line counted from one, without its carriage returns at the end. -/
def line? (source : Source) (number : Nat) : Option String :=
  match number with
  | 0 => none
  | feeds + 1 =>
      (lineAfter feeds source.text.toList).map fun line =>
        String.ofList (Text.dropRightWhile (· = '\r') line)

end Source

end Bhasha
