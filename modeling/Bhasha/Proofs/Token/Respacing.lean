import Bhasha.Proofs.Token.Scanning
import Bhasha.Proofs.Token.Spelling

namespace Bhasha

/-!
# Tokens written with other separators

The tokens of a text may be written again with any separators between them: a
separator starts with a blank, after which blanks and comments may stand in any
order.  The new text has the same tokens in other places.

A token that is spelled somewhere is spelled again by what is written for it
wherever a blank or the end follows, `Spells.written`: a blank extends no token,
and it keeps a slash away from the slashes of a comment.
-/

/-- What separates tokens: a blank, or a comment with the line feed that ends it. -/
inductive Filler where
  | blank (c : Char) (isBlank : Text.isBlank c = true)
  | comment (body : List Char) (noFeed : '\n' ∉ body)

/-- The characters of a filler. -/
def Filler.text : Filler → List Char
  | blank c _ => [c]
  | comment body _ => '/' :: '/' :: (body ++ ['\n'])

/-- What may stand between two tokens: a blank, and any fillers after it. -/
structure Separator where
  first : Char
  isBlank : Text.isBlank first = true
  more : List Filler

/-- The characters of a separator. -/
def Separator.text (separator : Separator) : List Char :=
  separator.first :: separator.more.flatMap Filler.text

namespace Token

/-- A token as it is written: a string stands between quotes. -/
def written (token : Token) : List Char :=
  match token.kind with
  | .string => '"' :: (token.lexeme.toList ++ ['"'])
  | _ => token.lexeme.toList

/-- Tokens written in their order, with a separator for each number of tokens that still follow. -/
def respaced (separators : Nat → Separator) : List Token → List Char
  | [] => []
  | [token] => token.written
  | token :: next :: rest =>
      token.written ++ ((separators rest.length).text ++ respaced separators (next :: rest))

end Token

/-- A text is at its end or goes on with a blank. -/
def Apart (text : List Char) : Prop :=
  ∀ c rest, text = c :: rest → Text.isBlank c = true

theorem apart_nil : Apart [] := by
  rintro c rest ⟨⟩

theorem Separator.apart (separator : Separator) (rest : List Char) :
    Apart (separator.text ++ rest) := by
  rintro c more ⟨⟩
  exact separator.isBlank

/-- A class without blanks takes no character of a text that is apart. -/
theorem Apart.notAhead
    {text : List Char} {test : Char → Bool}
    (apart : Apart text)
    (visible : ∀ c, test c = true →
      33 ≤ c.toNat ∧ c.toNat ≤ 126 ∨ 2432 ≤ c.toNat ∧ c.toNat ≤ 2559) :
    NotAhead test text := by
  intro c rest found
  apply Bool.eq_false_iff.mpr
  intro member
  have notBlank := isBlank_eq_false_of_visible (visible c member)
  rw [apart c rest found] at notBlank
  cases notBlank

section

variable {after : List Char}

theorem Apart.notDigit (apart : Apart after) : NotAhead Reading.isDigit after :=
  apart.notAhead fun c digit => by
    have bounds := (isDigit_iff c).mp digit
    omega

theorem Apart.notNumber (apart : Apart after) :
    NotAhead (fun c => Reading.isDigit c || c = '.') after :=
  apart.notAhead fun c part => by
    rcases Bool.or_eq_true_iff.mp part with digit | point
    · have bounds := (isDigit_iff c).mp digit
      omega
    · rw [decide_eq_true_eq] at point
      subst point
      decide

theorem Apart.notNamePart (apart : Apart after) : NotAhead isNamePart after :=
  apart.notAhead fun c part => by
    rcases Bool.or_eq_true_iff.mp part with start | digit
    · have bounds := (isNameStart_iff c).mp start
      omega
    · have bounds := (isDigit_iff c).mp digit
      omega

theorem Apart.notEqual (apart : Apart after) : NotAhead (· = '=') after :=
  apart.notAhead fun c equal => by
    rw [decide_eq_true_eq] at equal
    subst equal
    decide

/-- A blank after a character keeps it from starting a comment. -/
theorem Apart.noComment (apart : Apart after) (c : Char) :
    isCommentStart (c :: after) = false := by
  apply Bool.eq_false_iff.mpr
  rw [ne_eq, Stretch.isCommentStart_cons]
  rintro ⟨-, slash⟩
  obtain ⟨rest, rfl⟩ := List.head?_eq_some_iff.mp slash
  have blank := apart '/' rest rfl
  revert blank
  decide

/--
What is written for a token spells it again before a blank or the end.

Only a string may be written otherwise than it was: one that was not closed is
closed now, with the same text.
-/
theorem Spells.written
    {kind : TokenKind} {lexeme : String} {span : Span} {taken rest : List Char}
    (spells : Spells kind lexeme taken rest)
    (apart : Apart after) :
    Spells kind lexeme (Token.written ⟨kind, lexeme, span⟩) after := by
  cases spells with
  | whole some all ahead =>
      simpa [Token.written] using Spells.whole some all apart.notNumber
  | decimal some all allDecimals ahead =>
      simpa [Token.written] using Spells.decimal some all allDecimals apart.notDigit
  | closed noQuote | unterminated noQuote =>
      simpa [Token.written] using Spells.closed noQuote
  | keyword starts all ahead found =>
      simpa [Token.written] using Spells.keyword starts all apart.notNamePart found
  | identifier starts all ahead found =>
      simpa [Token.written] using Spells.identifier starts all apart.notNamePart found
  | operator starts noEqual noComment =>
      simpa [Token.written] using Spells.operator starts apart.notEqual (apart.noComment _)
  | operatorEqual starts =>
      simpa [Token.written] using Spells.operatorEqual starts
  | punctuation punctuation =>
      simpa [Token.written] using Spells.punctuation punctuation

end

namespace Token

/-- A comment makes no token, and what follows its line feed is scanned on its own. -/
theorem spelled_comment
    {body : List Char}
    (noFeed : '\n' ∉ body)
    (rest : List Char) :
    spelled ('/' :: '/' :: (body ++ '\n' :: rest)) = spelled rest := by
  have all : body.all (· ≠ '\n') = true := by
    rw [List.all_eq_true]
    intro c member
    simpa using ne_of_mem_of_not_mem member noFeed
  have feed : NotAhead (· ≠ '\n') ('\n' :: rest) := by
    rintro c more ⟨⟩
    rfl
  obtain ⟨-, behind⟩ := takeWhile_append_of_notAhead all feed
  have whole : ('/' :: (body ++ '\n' :: rest)).dropWhile (· ≠ '\n') = '\n' :: rest := by
    rw [List.dropWhile_cons_of_pos (by decide)]
    exact behind
  have first :
      Stretch.first '/' ('/' :: (body ++ '\n' :: rest)) =
        .gap ('/' :: ('/' :: (body ++ '\n' :: rest)).takeWhile (· ≠ '\n')) ('\n' :: rest) := by
    rw [Stretch.first, if_neg (by decide), if_pos ⟨rfl, rfl⟩, whole]
  have gap : (Stretch.first '/' ('/' :: (body ++ '\n' :: rest))).token = none := by
    rw [first]
    rfl
  rw [spelled, tokensFrom_cons_of_gap gap, map_unplaced_tokensFrom, first]
  exact spelled_cons_of_blank (by decide) rest

theorem spelled_filler (filler : Filler) (rest : List Char) :
    spelled (filler.text ++ rest) = spelled rest := by
  cases filler with
  | blank c isBlank =>
      exact spelled_cons_of_blank isBlank rest
  | comment body noFeed =>
      simpa [Filler.text] using spelled_comment noFeed rest

theorem spelled_fillers (fillers : List Filler) (rest : List Char) :
    spelled (fillers.flatMap Filler.text ++ rest) = spelled rest := by
  induction fillers with
  | nil =>
      rfl
  | cons filler fillers inductionHypothesis =>
      rw [List.flatMap_cons, List.append_assoc, spelled_filler, inductionHypothesis]

/-- A separator makes no token. -/
theorem spelled_separator (separator : Separator) (rest : List Char) :
    spelled (separator.text ++ rest) = spelled rest := by
  rw [Separator.text, List.cons_append, spelled_cons_of_blank separator.isBlank, spelled_fillers]

/-- A token that some stretch of characters spells. -/
def Spellable (token : Token) : Prop :=
  ∃ taken rest, Spells token.kind token.lexeme taken rest

theorem Spellable.spelled_written
    {token : Token}
    (spellable : token.Spellable)
    {rest : List Char}
    (apart : Apart rest) :
    spelled (token.written ++ rest) = token.unplaced :: spelled rest := by
  obtain ⟨taken, more, spells⟩ := spellable
  exact spelled_append_of_spells (spells.written apart)

/-- Respaced tokens are scanned one after the other before a blank or the end. -/
theorem spelled_respaced
    (separators : Nat → Separator)
    {tokens : List Token}
    (spellable : ∀ token ∈ tokens, token.Spellable)
    {rest : List Char}
    (apart : Apart rest) :
    spelled (respaced separators tokens ++ rest) = tokens.map unplaced ++ spelled rest := by
  induction tokens with
  | nil =>
      rfl
  | cons token tokens inductionHypothesis =>
      obtain ⟨headSpellable, tailSpellable⟩ := List.forall_mem_cons.mp spellable
      cases tokens with
      | nil =>
          exact headSpellable.spelled_written apart
      | cons next tokens =>
          rw [respaced, List.append_assoc, List.append_assoc,
            headSpellable.spelled_written (Separator.apart _ _), spelled_separator,
            inductionHypothesis tailSpellable]
          rfl

/-- A last token stands after the tokens before it and one more separator. -/
theorem respaced_concat
    (separators : Nat → Separator)
    (token last : Token)
    (tokens : List Token) :
    respaced separators (token :: tokens ++ [last]) =
      respaced (fun following => separators (following + 1)) (token :: tokens) ++
        ((separators 0).text ++ last.written) := by
  induction tokens generalizing token with
  | nil =>
      rfl
  | cons next tokens inductionHypothesis =>
      have following := inductionHypothesis next
      simp only [List.cons_append] at following
      simp only [List.cons_append, respaced, following, List.length_append, List.length_singleton,
        List.append_assoc]

/-- With their end, respaced tokens are scanned one after the other. -/
theorem spelled_respaced_finish
    (separators : Nat → Separator)
    {tokens : List Token}
    (spellable : ∀ token ∈ tokens, token.Spellable)
    (position : Position) :
    spelled (respaced separators (tokens ++ [finish position])) =
      tokens.map unplaced ++ spelled [] := by
  have blank : (finish position).written = [] :=
    rfl
  cases tokens with
  | nil =>
      rfl
  | cons token tokens =>
      rw [respaced_concat, blank, spelled_respaced _ spellable (Separator.apart _ _),
        spelled_separator]

/--
The tokens of a text may be written again with any separators between them.

Scanned again they have the same kinds, with the same values of numbers, and the
same texts, whether or not a separator stands before the end.
-/
theorem scan_respaced (text : String) (separators : Nat → Separator) :
    (scan (String.ofList (respaced separators (scan text)))).map unplaced =
        (scan text).map unplaced ∧
      (scan (String.ofList (respaced separators (scan text).dropLast))).map unplaced =
        (scan text).map unplaced := by
  obtain ⟨placed, tokens, -, laid⟩ := tokensFrom_laid text.toList 0 (Nat.zero_le _)
  change scan text = _ at tokens
  have spellable : ∀ token ∈ placed.map Placed.token, token.Spellable := by
    intro token member
    obtain ⟨entry, entryMember, rfl⟩ := List.mem_map.mp member
    obtain ⟨-, taken, rest, -, spells⟩ := stands_of_laid laid entry entryMember
    exact ⟨taken, rest, spells⟩
  have same (text : List Char) : (scan (String.ofList text)).map unplaced = spelled text := by
    rw [spelled, scan, String.toList_ofList]
    rfl
  rw [same, same, tokens, List.dropLast_concat, List.map_append]
  constructor
  · rw [spelled_respaced_finish separators spellable, spelled_nil]
    rfl
  · have whole := spelled_respaced separators spellable apart_nil
    rw [List.append_nil] at whole
    rw [whole, spelled_nil]
    rfl

end Token

end Bhasha
