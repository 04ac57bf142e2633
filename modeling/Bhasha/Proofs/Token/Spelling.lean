import Bhasha.Proofs.Token.Walk

namespace Bhasha

/-!
# Spelled tokens are scanned

A token that is spelled at the front of a text is the first one that is scanned
there: the classes of characters that start tokens are disjoint, and a token is as
long as its rule allows.  `Token.spelled` is the list of tokens of a text without
their places, which does not depend on where the text starts.
-/

/-- A digit is a character between zero and nine. -/
theorem isDigit_iff (c : Char) :
    Reading.isDigit c = true ↔ 48 ≤ c.toNat ∧ c.toNat ≤ 57 := by
  simp [Reading.isDigit, Char.le_def, UInt32.le_iff_toNat_le]

/-- A name starts with a letter, an underscore or a Bengali character. -/
theorem isNameStart_iff (c : Char) :
    isNameStart c = true ↔
      97 ≤ c.toNat ∧ c.toNat ≤ 122 ∨ 65 ≤ c.toNat ∧ c.toNat ≤ 90 ∨ c.toNat = 95 ∨
        2432 ≤ c.toNat ∧ c.toNat ≤ 2559 := by
  have underscore : c = '_' ↔ c.toNat = 95 := by
    rw [← Char.toNat_inj]
    rfl
  simp [isNameStart, isBengali, underscore, Char.le_def, UInt32.le_iff_toNat_le, or_assoc]

/-- A blank lies in one of the ranges of blanks. -/
theorem isBlank_eq_false_of_visible
    {c : Char}
    (visible : 33 ≤ c.toNat ∧ c.toNat ≤ 126 ∨ 2432 ≤ c.toNat ∧ c.toNat ≤ 2559) :
    Text.isBlank c = false := by
  simp [Text.isBlank, Text.blankRanges]
  omega

theorem isOperatorStart_iff (c : Char) :
    isOperatorStart c = true ↔
      c.toNat ∈ [43, 45, 42, 47, 37, 61, 62, 60, 33] := by
  simp [isOperatorStart, ← Char.toNat_inj]

theorem isPunctuation_iff (c : Char) :
    isPunctuation c = true ↔ c.toNat ∈ [40, 41, 123, 125, 59, 44] := by
  simp [isPunctuation, ← Char.toNat_inj]

/-- A character of a class is not one that the class refuses. -/
theorem ne_of_class
    {test : Char → Bool} {c other : Char}
    (member : test c = true)
    (refused : test other = false) :
    c ≠ other := by
  rintro rfl
  rw [refused] at member
  cases member

/-- The longest run of a class is cut where the class takes no further character. -/
theorem takeWhile_append_of_notAhead
    {test : Char → Bool} {text rest : List Char}
    (all : text.all test = true)
    (ahead : NotAhead test rest) :
    (text ++ rest).takeWhile test = text ∧ (text ++ rest).dropWhile test = rest := by
  rw [List.all_eq_true] at all
  rw [List.takeWhile_append_of_pos all, List.dropWhile_append_of_pos all]
  cases rest with
  | nil =>
      exact ⟨List.append_nil text, rfl⟩
  | cons c rest =>
      have refused := ahead c rest rfl
      rw [List.takeWhile_cons_of_neg (by simp [refused]),
        List.dropWhile_cons_of_neg (by simp [refused])]
      exact ⟨List.append_nil text, rfl⟩

namespace Stretch

theorem first_of_blank
    {c : Char}
    (blank : Text.isBlank c = true)
    (text : List Char) :
    first c text = gap [c] text := by
  rw [first, if_pos blank]

/-- A text that starts with a visible character and no comment starts with no gap. -/
theorem first_of_visible
    {c : Char} {text : List Char}
    (visible : 33 ≤ c.toNat ∧ c.toNat ≤ 126 ∨ 2432 ≤ c.toNat ∧ c.toNat ≤ 2559)
    (noComment : isCommentStart (c :: text) = false) :
    first c text =
      if Reading.isDigit c then number (c :: text)
      else if c = '"' then string text
      else if isNameStart c then name (c :: text)
      else if isOperatorStart c then operator c text
      else if isPunctuation c then plain .punctuation [c] text
      else gap [c] text := by
  rw [← Bool.not_eq_true, isCommentStart_cons] at noComment
  rw [first, isBlank_eq_false_of_visible visible, if_neg Bool.false_ne_true, if_neg noComment]

/-- Only a slash starts a comment. -/
theorem isCommentStart_of_ne
    {c : Char}
    (noSlash : c.toNat ≠ 47)
    (text : List Char) :
    isCommentStart (c :: text) = false := by
  rw [← Bool.not_eq_true, isCommentStart_cons]
  rintro ⟨rfl, -⟩
  exact noSlash rfl

theorem first_of_digit
    {c : Char}
    (digit : Reading.isDigit c = true)
    (text : List Char) :
    first c text = number (c :: text) := by
  have bounds := (isDigit_iff c).mp digit
  rw [first_of_visible (by omega) (isCommentStart_of_ne (by omega) text), if_pos digit]

theorem first_of_quote (text : List Char) :
    first '"' text = string text := by
  rw [first_of_visible (by decide) (isCommentStart_of_ne (by decide) text),
    if_neg (by decide), if_pos rfl]

theorem first_of_nameStart
    {c : Char}
    (start : isNameStart c = true)
    (text : List Char) :
    first c text = name (c :: text) := by
  have bounds := (isNameStart_iff c).mp start
  have notDigit : ¬ Reading.isDigit c = true := by
    rw [isDigit_iff]
    omega
  have notQuote : c ≠ '"' := ne_of_class start (by decide)
  rw [first_of_visible (by omega) (isCommentStart_of_ne (by omega) text), if_neg notDigit,
    if_neg notQuote, if_pos start]

/-- A character that starts operators starts an operator, unless it starts a comment. -/
theorem first_of_operatorStart
    {c : Char} {text : List Char}
    (start : isOperatorStart c = true)
    (noComment : isCommentStart (c :: text) = false) :
    first c text = operator c text := by
  have codes := (isOperatorStart_iff c).mp start
  simp only [List.mem_cons, List.not_mem_nil, or_false] at codes
  have notDigit : ¬ Reading.isDigit c = true := by
    rw [isDigit_iff]
    omega
  have notQuote : c ≠ '"' := ne_of_class start (by decide)
  have notName : ¬ isNameStart c = true := by
    rw [isNameStart_iff]
    omega
  rw [first_of_visible (by omega) noComment, if_neg notDigit, if_neg notQuote, if_neg notName,
    if_pos start]

theorem first_of_punctuation
    {c : Char}
    (punctuation : isPunctuation c = true)
    (text : List Char) :
    first c text = plain .punctuation [c] text := by
  have codes := (isPunctuation_iff c).mp punctuation
  simp only [List.mem_cons, List.not_mem_nil, or_false] at codes
  have notDigit : ¬ Reading.isDigit c = true := by
    rw [isDigit_iff]
    omega
  have notQuote : c ≠ '"' := ne_of_class punctuation (by decide)
  have notName : ¬ isNameStart c = true := by
    rw [isNameStart_iff]
    omega
  have notOperator : ¬ isOperatorStart c = true := by
    simp only [isOperatorStart_iff, List.mem_cons, List.not_mem_nil, or_false]
    omega
  rw [first_of_visible (by omega) (isCommentStart_of_ne (by omega) text), if_neg notDigit,
    if_neg notQuote, if_neg notName, if_neg notOperator, if_pos punctuation]

/-- Digits that nothing extends are cut as a whole number. -/
theorem number_whole
    {digits rest : List Char}
    (all : digits.all Reading.isDigit = true)
    (ahead : NotAhead (fun c => Reading.isDigit c || c = '.') rest) :
    number (digits ++ rest) =
      plain (.number (Reading.readLiteral digits)) digits rest := by
  have noDigit : NotAhead Reading.isDigit rest := by
    intro c more found
    have refused := ahead c more found
    rw [Bool.or_eq_false_iff] at refused
    exact refused.1
  obtain ⟨front, behind⟩ := takeWhile_append_of_notAhead all noDigit
  unfold number
  rw [front, behind]
  split
  case h_1 more =>
    have refused := ahead '.' more rfl
    simp at refused
  case h_2 =>
    rfl

/-- Digits around a point that nothing extends are cut as a decimal. -/
theorem number_decimal
    {digits decimals rest : List Char}
    (all : digits.all Reading.isDigit = true)
    (allDecimals : decimals.all Reading.isDigit = true)
    (ahead : NotAhead Reading.isDigit rest) :
    number (digits ++ '.' :: (decimals ++ rest)) =
      plain (.number (Reading.readLiteral (digits ++ '.' :: decimals)))
        (digits ++ '.' :: decimals) rest := by
  have point : NotAhead Reading.isDigit ('.' :: (decimals ++ rest)) := by
    rintro c more ⟨⟩
    rfl
  obtain ⟨front, behind⟩ := takeWhile_append_of_notAhead all point
  obtain ⟨more, last⟩ := takeWhile_append_of_notAhead allDecimals ahead
  simp only [number, front, behind, more, last]

theorem all_ne_quote
    {body : List Char}
    (noQuote : '"' ∉ body) :
    body.all (· ≠ '"') = true := by
  rw [List.all_eq_true]
  intro c member
  simp only [ne_eq, decide_not, Bool.not_eq_true', decide_eq_false_iff_not]
  rintro rfl
  exact noQuote member

/-- A text up to its first quote is cut as a string. -/
theorem string_closed
    {body : List Char}
    (noQuote : '"' ∉ body)
    (rest : List Char) :
    string (body ++ '"' :: rest) =
      ⟨'"' :: (body ++ ['"']), some (.string, String.ofList body), rest⟩ := by
  have quote : NotAhead (· ≠ '"') ('"' :: rest) := by
    rintro c more ⟨⟩
    rfl
  obtain ⟨front, behind⟩ := takeWhile_append_of_notAhead (all_ne_quote noQuote) quote
  simp only [string, front, behind]

/-- A text without a quote is cut as a string that is not closed. -/
theorem string_unterminated
    {body : List Char}
    (noQuote : '"' ∉ body) :
    string body = ⟨'"' :: body, some (.string, String.ofList body), []⟩ := by
  have finish : NotAhead (· ≠ '"') [] := by
    rintro c more ⟨⟩
  obtain ⟨front, behind⟩ := takeWhile_append_of_notAhead (all_ne_quote noQuote) finish
  rw [List.append_nil] at front behind
  simp only [string, front, behind]

/-- A name that nothing extends is cut as a name. -/
theorem name_word
    {start : Char} {word rest : List Char}
    (starts : isNameStart start = true)
    (all : word.all isNamePart = true)
    (ahead : NotAhead isNamePart rest) :
    name (start :: word ++ rest) =
      plain ((Keyword.ofWord? (String.ofList (start :: word))).elim .identifier .keyword)
        (start :: word) rest := by
  have whole : (start :: word).all isNamePart = true := by
    rw [List.all_cons, all, isNamePart, starts, Bool.true_or, Bool.true_and]
  obtain ⟨front, behind⟩ := takeWhile_append_of_notAhead whole ahead
  simp only [name, front, behind]
  cases Keyword.ofWord? (String.ofList (start :: word)) <;> rfl

/-- An operator character that nothing extends is cut alone. -/
theorem operator_single
    (c : Char) {rest : List Char}
    (noEqual : NotAhead (· = '=') rest) :
    operator c rest = plain .operator [c] rest := by
  unfold operator
  split
  case h_1 more =>
    have refused := noEqual '=' more rfl
    simp at refused
  case h_2 =>
    rfl

theorem isCommentStart_equal (c : Char) (rest : List Char) :
    isCommentStart (c :: '=' :: rest) = false := by
  rw [← Bool.not_eq_true, isCommentStart_cons]
  simp

/-- A token that is spelled at the front of a text is its first stretch. -/
theorem first_of_spells
    {kind : TokenKind} {lexeme : String} {taken rest : List Char}
    (spells : Spells kind lexeme taken rest) :
    ∃ c more, taken = c :: more ∧
      first c (more ++ rest) = ⟨taken, some (kind, lexeme), rest⟩ := by
  cases spells with
  | @whole digits rest some all ahead =>
      obtain ⟨c, more, rfl⟩ := List.exists_cons_of_ne_nil some
      have digit := List.all_eq_true.mp all c List.mem_cons_self
      refine ⟨c, more, rfl, ?_⟩
      rw [first_of_digit digit]
      exact number_whole all ahead
  | @decimal digits decimals rest some all allDecimals ahead =>
      obtain ⟨c, more, rfl⟩ := List.exists_cons_of_ne_nil some
      have digit := List.all_eq_true.mp all c List.mem_cons_self
      refine ⟨c, more ++ '.' :: decimals, rfl, ?_⟩
      rw [first_of_digit digit, List.append_assoc]
      exact number_decimal all allDecimals ahead
  | @closed body rest noQuote =>
      refine ⟨'"', body ++ ['"'], rfl, ?_⟩
      rw [first_of_quote, List.append_assoc]
      exact string_closed noQuote rest
  | @unterminated body noQuote =>
      refine ⟨'"', body, rfl, ?_⟩
      rw [first_of_quote, List.append_nil]
      exact string_unterminated noQuote
  | @keyword start word rest keyword starts all ahead found =>
      refine ⟨start, word, rfl, ?_⟩
      rw [first_of_nameStart starts]
      apply (name_word starts all ahead).trans
      rw [found]
      rfl
  | @identifier start word rest starts all ahead found =>
      refine ⟨start, word, rfl, ?_⟩
      rw [first_of_nameStart starts]
      apply (name_word starts all ahead).trans
      rw [found]
      rfl
  | @operator c rest starts noEqual noComment =>
      refine ⟨c, [], rfl, ?_⟩
      rw [List.nil_append, first_of_operatorStart starts noComment]
      exact operator_single c noEqual
  | @operatorEqual c rest starts =>
      refine ⟨c, ['='], rfl, ?_⟩
      exact first_of_operatorStart starts (isCommentStart_equal c rest)
  | punctuation punctuation =>
      exact ⟨_, _, rfl, first_of_punctuation punctuation rest⟩

end Stretch

namespace Token

/-- A token with no place of its own. -/
def bare (kind : TokenKind) (lexeme : String) : Token :=
  ⟨kind, lexeme, Span.point .first⟩

/-- A token without its place. -/
def unplaced (token : Token) : Token :=
  bare token.kind token.lexeme

/-- The tokens of a text without their places. -/
def spelled (text : List Char) : List Token :=
  (tokensFrom .first text).map unplaced

/-- Tokens without their places do not depend on where the text starts. -/
theorem map_unplaced_tokensFrom (position : Position) (text : List Char) :
    (tokensFrom position text).map unplaced = spelled text := by
  unfold spelled
  -- A stretch moves both positions, so the induction is for any two of them.
  generalize Position.first = other
  induction size : text.length using Nat.strong_induction_on
    generalizing text position other with
  | h size inductionHypothesis =>
      subst size
      cases text with
      | nil =>
          rw [tokensFrom_nil, tokensFrom_nil]
          rfl
      | cons c text =>
          have walk := inductionHypothesis _ (Stretch.length_rest_lt c text)
          cases found : (Stretch.first c text).token with
          | none =>
              rw [tokensFrom_cons_of_gap found, tokensFrom_cons_of_gap found]
              exact walk _ _ _ rfl
          | some entry =>
              rw [tokensFrom_cons_of_token found, tokensFrom_cons_of_token found, List.map_cons,
                List.map_cons, walk _ _ _ rfl]
              rfl

@[simp] theorem spelled_nil :
    spelled [] = [bare .endOfInput ""] := by
  rw [spelled, tokensFrom_nil]
  rfl

theorem spelled_cons_of_blank
    {c : Char}
    (blank : Text.isBlank c = true)
    (text : List Char) :
    spelled (c :: text) = spelled text := by
  have first := Stretch.first_of_blank blank text
  have gap : (Stretch.first c text).token = none := by
    rw [first]
    rfl
  rw [spelled, tokensFrom_cons_of_gap gap, map_unplaced_tokensFrom, first]
  rfl

/-- A token that is spelled at the front of a text is its first token. -/
theorem spelled_append_of_spells
    {kind : TokenKind} {lexeme : String} {taken rest : List Char}
    (spells : Spells kind lexeme taken rest) :
    spelled (taken ++ rest) = bare kind lexeme :: spelled rest := by
  obtain ⟨c, more, rfl, first⟩ := Stretch.first_of_spells spells
  have token : (Stretch.first c (more ++ rest)).token = some (kind, lexeme) := by
    rw [first]
  rw [spelled, List.cons_append, tokensFrom_cons_of_token token, List.map_cons,
    map_unplaced_tokensFrom, first]
  rfl

end Token

end Bhasha
