import Bhasha.Proofs.Token.Layout
import Mathlib.Data.List.TakeWhile

namespace Bhasha

/-!
# The walk over a text

Scanning walks over the stretches of a text and keeps the tokens it has found.
`Token.tokensFrom` is the walk from a position with nothing found, with one
equation for each kind of stretch; and every first stretch is either a token
that is spelled before the rest or a piece of a gap.
-/

/-- A class takes no further character after the longest run of its characters. -/
theorem notAhead_dropWhile (test : Char → Bool) (text : List Char) :
    NotAhead test (text.dropWhile test) := by
  intro c rest found
  have some : text.dropWhile test ≠ [] := by
    simp [found]
  have refused := List.head_dropWhile_not test some
  simpa [found] using refused

/-- The longest run without a character does not hold it. -/
theorem notMem_takeWhile_ne (c : Char) (text : List Char) :
    c ∉ text.takeWhile (· ≠ c) := by
  intro member
  simpa using List.mem_takeWhile_imp member

namespace Stretch

/-- A number is spelled before the text after it. -/
theorem number_spells
    {c : Char}
    (digit : Reading.isDigit c = true)
    (text : List Char) :
    ∃ kind lexeme, (number (c :: text)).token = some (kind, lexeme) ∧
      Spells kind lexeme (number (c :: text)).taken (number (c :: text)).rest := by
  have digits := List.all_takeWhile (p := Reading.isDigit) (l := c :: text)
  have some : (c :: text).takeWhile Reading.isDigit ≠ [] := by
    simp [digit]
  have ahead := notAhead_dropWhile Reading.isDigit (c :: text)
  unfold number
  split
  case h_1 more found =>
    exact ⟨_, _, rfl, .decimal some digits List.all_takeWhile (notAhead_dropWhile _ _)⟩
  case h_2 noPoint =>
    refine ⟨_, _, rfl, .whole some digits ?_⟩
    intro next rest found
    have notDigit := ahead next rest found
    have notPoint : next ≠ '.' := by
      rintro rfl
      exact noPoint rest found
    simp [notDigit, notPoint]

theorem string_spells (text : List Char) :
    ∃ kind lexeme, (string text).token = some (kind, lexeme) ∧
      Spells kind lexeme (string text).taken (string text).rest := by
  have body := notMem_takeWhile_ne '"' text
  unfold string
  split
  case h_1 found =>
    exact ⟨_, _, rfl, .unterminated body⟩
  case h_2 quote rest found =>
    have quoted := notAhead_dropWhile (· ≠ '"') text quote rest found
    obtain rfl : quote = '"' := by
      simpa using quoted
    exact ⟨_, _, rfl, .closed body⟩

theorem name_spells
    {c : Char}
    (start : isNameStart c = true)
    (text : List Char) :
    ∃ kind lexeme, (name (c :: text)).token = some (kind, lexeme) ∧
      Spells kind lexeme (name (c :: text)).taken (name (c :: text)).rest := by
  have part : isNamePart c = true := by
    simp [isNamePart, start]
  have word := List.all_takeWhile (p := isNamePart) (l := text)
  have ahead := notAhead_dropWhile isNamePart text
  unfold name
  rw [List.takeWhile_cons_of_pos part, List.dropWhile_cons_of_pos part]
  cases found : Keyword.ofWord? (String.ofList (c :: text.takeWhile isNamePart)) with
  | some keyword =>
      refine ⟨_, _, rfl, ?_⟩
      simp only [plain, found]
      exact .keyword start word ahead found
  | none =>
      refine ⟨_, _, rfl, ?_⟩
      simp only [plain, found]
      exact .identifier start word ahead found

/-- An operator is spelled before the text after it, unless a comment starts there. -/
theorem operator_spells
    {c : Char} {text : List Char}
    (start : isOperatorStart c = true)
    (noComment : isCommentStart (c :: text) = false) :
    ∃ kind lexeme, (operator c text).token = some (kind, lexeme) ∧
      Spells kind lexeme (operator c text).taken (operator c text).rest := by
  unfold operator
  split
  case h_1 rest =>
    exact ⟨_, _, rfl, .operatorEqual start⟩
  case h_2 noEqual =>
    refine ⟨_, _, rfl, .operator start ?_ noComment⟩
    intro next rest found
    have notEqual : next ≠ '=' := by
      rintro rfl
      exact noEqual rest found
    simp [notEqual]

/-- A text starts a comment when it starts with a slash and another one. -/
theorem isCommentStart_cons (c : Char) (text : List Char) :
    isCommentStart (c :: text) = true ↔ c = '/' ∧ text.head? = some '/' := by
  unfold isCommentStart
  split
  case h_1 rest found =>
    cases found
    simp
  case h_2 other =>
    cases text with
    | nil =>
        simp
    | cons second rest =>
        simp only [List.head?_cons, Option.some.injEq, Bool.false_eq_true, false_iff, not_and]
        rintro rfl rfl
        exact other rest rfl

/-- The first stretch of a text is a token spelled before the rest, or a piece of a gap. -/
theorem first_cases (c : Char) (text : List Char) :
    (∃ kind lexeme, (first c text).token = some (kind, lexeme) ∧
        Spells kind lexeme (first c text).taken (first c text).rest) ∨
      (first c text).token = none ∧
        ∀ gap rest, gap ++ rest = (first c text).rest → Gap gap rest →
          Gap ((first c text).taken ++ gap) rest := by
  unfold first
  split
  case isTrue blank =>
    exact .inr ⟨rfl, fun gap rest _ more => .blank blank more⟩
  case isFalse notBlank =>
  split
  case isTrue comment =>
    obtain ⟨rfl, second⟩ := comment
    rcases text with _ | ⟨slash, text⟩
    · cases second
    obtain rfl : slash = '/' := by
      simpa using second
    refine .inr ⟨rfl, ?_⟩
    intro gap rest whole more
    have body := notMem_takeWhile_ne '\n' text
    have ahead : NotAhead (· ≠ '\n') (gap ++ rest) := by
      rw [whole]
      exact notAhead_dropWhile _ _
    exact .comment body ahead more
  case isFalse noComment =>
  split
  case isTrue digit =>
    exact .inl (number_spells digit text)
  case isFalse notDigit =>
  split
  case isTrue quote =>
    exact .inl (string_spells text)
  case isFalse notQuote =>
  split
  case isTrue start =>
    exact .inl (name_spells start text)
  case isFalse notStart =>
  split
  case isTrue start =>
    refine .inl (operator_spells start ?_)
    rw [← Bool.not_eq_true, isCommentStart_cons]
    exact noComment
  case isFalse notOperator =>
  split
  case isTrue punctuation =>
    exact .inl ⟨_, _, rfl, .punctuation punctuation⟩
  case isFalse notPunctuation =>
    have dropped : isDropped c = true := by
      simp only [isDropped, notBlank, notDigit, notQuote, notStart, notOperator, notPunctuation,
        decide_false, Bool.or_self, Bool.not_false]
    exact .inr ⟨rfl, fun gap rest _ more => .dropped dropped more⟩

end Stretch

namespace Token

/-- The tokens of a text that starts at a position. -/
def tokensFrom (position : Position) (text : List Char) : List Token :=
  (scanFrom position #[] text).toList

/-- Tokens that were found before stay in front of those of the text. -/
theorem toList_scanFrom (text : List Char) (position : Position) (found : Array Token) :
    (scanFrom position found text).toList = found.toList ++ tokensFrom position text := by
  induction size : text.length using Nat.strong_induction_on
    generalizing text position found with
  | h size inductionHypothesis =>
      subst size
      cases text with
      | nil =>
          simp [tokensFrom, scanFrom]
      | cons c text =>
          have walk := inductionHypothesis _ (Stretch.length_rest_lt c text)
          unfold tokensFrom
          rw [scanFrom, scanFrom]
          cases (Stretch.first c text).token with
          | none =>
              exact walk _ _ found rfl
          | some entry =>
              simp only [walk _ _ _ rfl, Array.toList_push, List.append_assoc, List.nil_append]

@[simp] theorem tokensFrom_nil (position : Position) :
    tokensFrom position [] = [finish position] := by
  simp [tokensFrom, scanFrom]

/-- A piece of a gap makes no token. -/
theorem tokensFrom_cons_of_gap
    {c : Char} {text : List Char}
    (gap : (Stretch.first c text).token = none)
    (position : Position) :
    tokensFrom position (c :: text) =
      tokensFrom (position.after (Stretch.first c text).taken) (Stretch.first c text).rest := by
  unfold tokensFrom
  rw [scanFrom]
  simp only [gap]

/-- The first stretch makes the first token. -/
theorem tokensFrom_cons_of_token
    {c : Char} {text : List Char} {kind : TokenKind} {lexeme : String}
    (token : (Stretch.first c text).token = some (kind, lexeme))
    (position : Position) :
    tokensFrom position (c :: text) =
      ⟨kind, lexeme, ⟨position, (position.after (Stretch.first c text).taken).back⟩⟩ ::
        tokensFrom (position.after (Stretch.first c text).taken) (Stretch.first c text).rest := by
  rw [tokensFrom, scanFrom]
  simp only [token, toList_scanFrom, Array.toList_push, List.nil_append, List.singleton_append]

end Token

end Bhasha
