import Bhasha.Number.Reading
import Bhasha.Source
import Bhasha.Token

namespace Bhasha

/-!
# Scanning

A source text is cut from the front into stretches.  A stretch is a token or a
gap: a blank, a comment up to the end of its line, or a character that no token
starts with.  Scanning never fails; a string that is not closed takes the rest
of the text.

`Stretch.first` cuts one stretch, `Stretch.taken_append_rest` says that the cut
loses nothing, and `Token.scan` walks over all stretches while it keeps the
position.
-/

/-- The characters that start an operator; each may be followed by `=`. -/
def isOperatorStart (c : Char) : Bool :=
  ['+', '-', '*', '/', '%', '=', '>', '<', '!'].contains c

/-- The characters that are a token on their own. -/
def isPunctuation (c : Char) : Bool :=
  ['(', ')', '\x7b', '\x7d', ';', ','].contains c

/-- The characters of the Bengali block, U+0980 to U+09FF. -/
def isBengali (c : Char) : Bool :=
  0x0980 ≤ c.toNat && c.toNat ≤ 0x09FF

/-- The characters that start a name: Latin letters, the underscore, and Bengali characters. -/
def isNameStart (c : Char) : Bool :=
  ('a' ≤ c && c ≤ 'z') || ('A' ≤ c && c ≤ 'Z') || c = '_' || isBengali c

/-- The characters that continue a name. -/
def isNamePart (c : Char) : Bool :=
  isNameStart c || Reading.isDigit c

/-- A stretch at the front of a text, the token it makes if any, and the text after it. -/
structure Stretch where
  taken : List Char
  token : Option (TokenKind × String)
  rest : List Char

namespace Stretch

/-- A stretch that is no token. -/
def gap (taken rest : List Char) : Stretch := ⟨taken, none, rest⟩

/-- A stretch that is a token whose text is the whole stretch. -/
def plain (kind : TokenKind) (taken rest : List Char) : Stretch :=
  ⟨taken, some (kind, String.ofList taken), rest⟩

/-- A number: digits, and at most one point with the digits after it. -/
def number (text : List Char) : Stretch :=
  let whole := text.takeWhile Reading.isDigit
  match text.dropWhile Reading.isDigit with
  | '.' :: more =>
      let taken := whole ++ '.' :: more.takeWhile Reading.isDigit
      plain (.number (Reading.readLiteral taken)) taken (more.dropWhile Reading.isDigit)
  | rest => plain (.number (Reading.readLiteral whole)) whole rest

/-- A string after its opening quote: all up to the closing quote, or up to the end. -/
def string (text : List Char) : Stretch :=
  let body := text.takeWhile (· ≠ '"')
  match text.dropWhile (· ≠ '"') with
  | [] => ⟨'"' :: body, some (.string, String.ofList body), []⟩
  | quote :: rest => ⟨'"' :: (body ++ [quote]), some (.string, String.ofList body), rest⟩

/-- A name: the longest run of name characters, which may spell a reserved word. -/
def name (text : List Char) : Stretch :=
  let taken := text.takeWhile isNamePart
  let kind :=
    match Keyword.ofWord? (String.ofList taken) with
    | some keyword => .keyword keyword
    | none => .identifier
  plain kind taken (text.dropWhile isNamePart)

/-- An operator: one character, and `=` when it follows. -/
def operator (c : Char) : List Char → Stretch
  | '=' :: rest => plain .operator [c, '='] rest
  | rest => plain .operator [c] rest

/-- The first stretch of a text that starts with a character. -/
def first (c : Char) (text : List Char) : Stretch :=
  if Text.isBlank c then gap [c] text
  else if c = '/' ∧ text.head? = some '/' then
    gap (c :: text.takeWhile (· ≠ '\n')) (text.dropWhile (· ≠ '\n'))
  else if Reading.isDigit c then number (c :: text)
  else if c = '"' then string text
  else if isNameStart c then name (c :: text)
  else if isOperatorStart c then operator c text
  else if isPunctuation c then plain .punctuation [c] text
  else gap [c] text

/-- The cut of a number loses nothing. -/
theorem number_taken_append_rest (text : List Char) :
    (number text).taken ++ (number text).rest = text := by
  have split := List.takeWhile_append_dropWhile (p := Reading.isDigit) (l := text)
  unfold number
  split
  · rename_i more found
    simp only [plain, List.append_assoc, List.cons_append, List.takeWhile_append_dropWhile]
    rw [← found, split]
  · exact split

/-- The cut of a string loses nothing but its opening quote. -/
theorem string_taken_append_rest (text : List Char) :
    (string text).taken ++ (string text).rest = '"' :: text := by
  have split := List.takeWhile_append_dropWhile (p := (· ≠ '"')) (l := text)
  unfold string
  split
  · rename_i found
    rw [found, List.append_nil] at split
    simp only [List.append_nil, split]
  · rename_i quote rest found
    simp only [List.cons_append, List.append_assoc, List.nil_append]
    rw [← found, split]

/-- The cut of a name loses nothing. -/
theorem name_taken_append_rest (text : List Char) :
    (name text).taken ++ (name text).rest = text :=
  List.takeWhile_append_dropWhile

/-- The cut of an operator loses nothing. -/
theorem operator_taken_append_rest (c : Char) (text : List Char) :
    (operator c text).taken ++ (operator c text).rest = c :: text := by
  unfold operator
  split <;> rfl

/-- A stretch and the text after it are the text that was cut. -/
theorem taken_append_rest (c : Char) (text : List Char) :
    (first c text).taken ++ (first c text).rest = c :: text := by
  unfold first
  split
  · rfl
  split
  · simp [gap]
  split
  · exact number_taken_append_rest _
  split
  · rename_i isQuote
    rw [string_taken_append_rest, isQuote]
  split
  · exact name_taken_append_rest _
  split
  · exact operator_taken_append_rest c text
  split <;> rfl

/-- A number that starts with a digit takes at least that digit. -/
theorem number_taken_ne_nil
    {c : Char}
    (digit : Reading.isDigit c = true)
    (text : List Char) :
    (number (c :: text)).taken ≠ [] := by
  unfold number
  split <;> simp [plain, digit]

/-- No stretch is empty. -/
theorem first_taken_ne_nil (c : Char) (text : List Char) :
    (first c text).taken ≠ [] := by
  unfold first
  split
  · simp [gap]
  split
  · simp [gap]
  split
  · rename_i digit
    exact number_taken_ne_nil digit text
  split
  · unfold string
    split <;> simp
  split
  · rename_i start
    simp [name, plain, isNamePart, start]
  split
  · unfold operator
    split <;> simp [plain]
  split <;> simp [plain, gap]

/-- The text after a stretch is shorter than the text that was cut. -/
theorem length_rest_lt (c : Char) (text : List Char) :
    (first c text).rest.length < (c :: text).length := by
  have whole := congrArg List.length (taken_append_rest c text)
  have some := List.length_pos_iff.mpr (first_taken_ne_nil c text)
  rw [List.length_append] at whole
  omega

end Stretch

namespace Token

/-- The tokens found so far, those of a text that starts at a position, and the end of the input. -/
def scanFrom (position : Position) (found : Array Token) : List Char → Array Token
  | [] => found.push (finish position)
  | c :: text =>
      let stretch := Stretch.first c text
      let after := position.after stretch.taken
      match stretch.token with
      | none => scanFrom after found stretch.rest
      | some (kind, lexeme) =>
          scanFrom after (found.push ⟨kind, lexeme, ⟨position, after.back⟩⟩) stretch.rest
  termination_by text => text.length
  decreasing_by all_goals exact Stretch.length_rest_lt c text

/-- The tokens of a text, of which the last and only the last marks the end of the input. -/
def scan (text : String) : List Token :=
  (scanFrom Position.first #[] text.toList).toList

end Token

end Bhasha
