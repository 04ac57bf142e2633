import Bhasha.Json.Numeral

namespace Bhasha.Json

/-!
# The lexemes of JSON texts

A JSON text is cut into brackets, commas, colons and scalars.  Texts must close
their quotes, escape the quote, the backslash and every character below U+0020,
and name a character outside the basic plane by a pair of surrogates.  A number
must be well formed and read as a finite double.
-/

/-- A piece of a JSON text between blanks. -/
inductive Lexeme where
  | openList
  | closeList
  | openObject
  | closeObject
  | comma
  | colon
  | quoted (value : String)
  | scalar (value : Json)

namespace Lexeme

/-- The value of four digits to the base sixteen. -/
def hexadecimal? (digits : List Char) : Option Nat := Reading.radixDigits? 16 digits

/-- The character that a one-letter escape stands for. -/
def unescape? : Char → Option Char
  | '"' => some '"'
  | '\\' => some '\\'
  | '/' => some '/'
  | 'b' => some '\x08'
  | 'f' => some '\x0c'
  | 'n' => some '\n'
  | 'r' => some '\r'
  | 't' => some '\t'
  | _ => none

/-- A code unit that is no character but the first half of one. -/
def isHighSurrogate (unit : Nat) : Bool := 0xD800 ≤ unit && unit ≤ 0xDBFF

/-- A code unit that is no character but the second half of one. -/
def isLowSurrogate (unit : Nat) : Bool := 0xDC00 ≤ unit && unit ≤ 0xDFFF

/-- The characters of a text after its opening quote, reversed onto those read, and what follows. -/
def textBody? (read : List Char) : List Char → Option (List Char × List Char)
  | [] => none
  | '"' :: rest => some (read.reverse, rest)
  | '\\' :: 'u' :: a :: b :: c :: d :: rest =>
      match hexadecimal? [a, b, c, d] with
      | none => none
      | some unit =>
          if isLowSurrogate unit then none
          else if isHighSurrogate unit then
            match rest with
            | '\\' :: 'u' :: e :: f :: g :: h :: more =>
                match hexadecimal? [e, f, g, h] with
                | none => none
                | some low =>
                    if isLowSurrogate low then
                      let code := 0x10000 + (unit - 0xD800) * 0x400 + (low - 0xDC00)
                      textBody? (Char.ofNat code :: read) more
                    else none
            | _ => none
          else textBody? (Char.ofNat unit :: read) rest
  | '\\' :: mark :: rest =>
      match unescape? mark with
      | none => none
      | some c => textBody? (c :: read) rest
  | c :: rest => if c.toNat < 0x20 then none else textBody? (c :: read) rest

/-- A number at the front of a text, and the text after it. -/
def number? (text : List Char) : Option (Json × List Char) :=
  let split := Numeral.split text
  if split.1.isWellFormed && split.1.code < Binary64.infinity then
    some (split.1.value, split.2)
  else none

/-- A blank between lexemes: space, tab, line feed or carriage return. -/
def isBlank (c : Char) : Bool := c = ' ' || c = '\t' || c = '\n' || c = '\r'

/-- The first lexeme of a text that starts with a character, and the text after it. -/
def first? (c : Char) (text : List Char) : Option (Lexeme × List Char) :=
  match c, text with
  | '[', rest => some (openList, rest)
  | ']', rest => some (closeList, rest)
  | '\x7b', rest => some (openObject, rest)
  | '\x7d', rest => some (closeObject, rest)
  | ',', rest => some (comma, rest)
  | ':', rest => some (colon, rest)
  | '"', rest => (textBody? [] rest).map fun (body, after) => (quoted (String.ofList body), after)
  | 'n', 'u' :: 'l' :: 'l' :: rest => some (scalar .null, rest)
  | 't', 'r' :: 'u' :: 'e' :: rest => some (scalar (.bool true), rest)
  | 'f', 'a' :: 'l' :: 's' :: 'e' :: rest => some (scalar (.bool false), rest)
  | _, _ => (number? (c :: text)).map fun (value, after) => (scalar value, after)

/-- A number takes at least one character. -/
theorem length_number?_lt
    {text rest : List Char}
    {value : Json}
    (found : number? text = some (value, rest)) :
    rest.length < text.length := by
  unfold number? at found
  simp only [Option.ite_none_right_eq_some, Option.some.injEq, Prod.mk.injEq,
    Bool.and_eq_true] at found
  obtain ⟨⟨wellFormed, _⟩, _, rfl⟩ := found
  exact Numeral.length_split_lt text wellFormed

/-- The text after a quoted text is no longer than the text before it. -/
theorem length_textBody?_le
    {read text body rest : List Char}
    (found : textBody? read text = some (body, rest)) :
    rest.length ≤ text.length := by
  fun_induction textBody? read text <;> simp_all
  all_goals omega

/-- A lexeme takes at least one character. -/
theorem length_first?_lt
    {c : Char}
    {text rest : List Char}
    {lexeme : Lexeme}
    (found : first? c text = some (lexeme, rest)) :
    rest.length < (c :: text).length := by
  unfold first? at found
  split at found <;>
    simp only [Option.some.injEq, Prod.mk.injEq, Option.map_eq_some_iff, Prod.exists] at found
  case h_7 =>
    obtain ⟨body, after, body_found, _, rfl⟩ := found
    exact Nat.lt_succ_of_le (length_textBody?_le body_found)
  case h_11 =>
    obtain ⟨value, after, number_found, _, rfl⟩ := found
    exact length_number?_lt number_found
  all_goals
    obtain ⟨_, rfl⟩ := found
    simp only [List.length_cons]
    omega

end Lexeme

/-- The lexemes of a text after those found so far, if it is made of lexemes and blanks. -/
def lexemesFrom? (found : Array Lexeme) : List Char → Option (Array Lexeme)
  | [] => some found
  | c :: text =>
      if Lexeme.isBlank c then lexemesFrom? found text
      else
        match _next : Lexeme.first? c text with
        | none => none
        | some (lexeme, rest) => lexemesFrom? (found.push lexeme) rest
  termination_by text => text.length
  decreasing_by
    · simp
    · exact Lexeme.length_first?_lt _next

end Bhasha.Json
