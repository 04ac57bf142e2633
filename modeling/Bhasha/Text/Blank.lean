namespace Bhasha.Text

/-!
# Blank characters

The characters with the Unicode property `White_Space`, a text without its outer
blanks, and texts that hold nothing but blanks.  U+0085 and U+00A0 are blank;
U+FEFF and U+200B are not.  Of them all only the space is ever written.
-/

/-- Code points with the Unicode property `White_Space`, as inclusive ranges. -/
def blankRanges : List (Nat × Nat) :=
  [(0x0009, 0x000D), (0x0020, 0x0020), (0x0085, 0x0085), (0x00A0, 0x00A0),
   (0x1680, 0x1680), (0x2000, 0x200A), (0x2028, 0x2029), (0x202F, 0x202F),
   (0x205F, 0x205F), (0x3000, 0x3000)]

/-- A character is blank when its code point lies in one of the ranges. -/
def isBlank (c : Char) : Bool :=
  blankRanges.any fun range => range.1 ≤ c.toNat && c.toNat ≤ range.2

/-- Drop characters from the end of a text while they satisfy a test. -/
def dropRightWhile (test : Char → Bool) (text : List Char) : List Char :=
  (text.reverse.dropWhile test).reverse

/-- A text without the blanks at its two ends. -/
def trim (text : List Char) : List Char :=
  dropRightWhile isBlank (text.dropWhile isBlank)

/-- A text is blank when it holds no character other than blanks. -/
def isAllBlank (text : String) : Bool :=
  text.toList.all isBlank

/-- A run of spaces. -/
def spaces (count : Nat) : String := String.ofList (List.replicate count ' ')

/-- The spaces in front of a line, two for every level. -/
def indent (level : Nat) : String := spaces (2 * level)

/-- Every character that the core library calls whitespace is blank. -/
theorem isBlank_of_isWhitespace
    {c : Char}
    (white : c.isWhitespace = true) :
    isBlank c = true := by
  simp only [Char.isWhitespace, Bool.or_eq_true, decide_eq_true_eq] at white
  rcases white with ((rfl | rfl) | rfl) | rfl <;> decide

end Bhasha.Text
