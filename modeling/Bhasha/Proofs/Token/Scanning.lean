import Bhasha.Proofs.Token.Walk
import Mathlib.Data.List.Induction

namespace Bhasha

/-!
# Scanning lays tokens along the text

The position that the scanner keeps is the place of the offset it has reached,
and each stretch that it cuts is the slice of the text between two such offsets.
So the tokens of a text are laid along it: no character is lost, counted twice
or given to another token.
-/

namespace Position

/-- The place after a text from its first position. -/
theorem first_after (text : List Char) :
    first.after text =
      ⟨1 + text.count '\n', 1 + (text.reverse.takeWhile (· ≠ '\n')).length⟩ := by
  induction text using List.reverseRecOn with
  | nil =>
      rfl
  | append_singleton text c inductionHypothesis =>
      rw [after_append, inductionHypothesis, after_cons, after_nil, next]
      by_cases feed : c = '\n'
      · subst feed
        simp [List.count_append, Nat.add_assoc]
      · simp [feed, List.count_append, Nat.add_comm]

/-- The place of an offset is the one after the characters before it. -/
theorem ofOffset_eq_after (text : List Char) (offset : Nat) :
    ofOffset text offset = first.after (text.take offset) :=
  (first_after _).symm

/-- The place of the next offset is the one after the character between them. -/
theorem ofOffset_succ
    {text : List Char} {offset : Nat}
    (inside : offset < text.length) :
    ofOffset text (offset + 1) = (ofOffset text offset).next text[offset] := by
  rw [ofOffset_eq_after, ofOffset_eq_after, ← List.take_append_getElem inside, after_append]
  rfl

/-- Within a line, the place before that of the next offset is the place of the offset. -/
theorem back_ofOffset
    {text : List Char} {offset : Nat}
    (positive : 0 < offset)
    (inside : offset ≤ text.length)
    (noFeed : text[offset - 1]? ≠ some '\n') :
    (ofOffset text offset).back = ofOffset text (offset - 1) := by
  obtain ⟨before, rfl⟩ : ∃ before, offset = before + 1 :=
    ⟨offset - 1, (Nat.sub_add_cancel positive).symm⟩
  rw [Nat.add_sub_cancel] at noFeed ⊢
  rw [List.getElem?_eq_getElem inside, ne_eq, Option.some.injEq] at noFeed
  rw [ofOffset_succ inside, next, if_neg noFeed]
  simp [back, ofOffset]

end Position

/-- No token that is spelled is the end of the input. -/
theorem Spells.kind_ne_endOfInput
    {kind : TokenKind} {lexeme : String} {taken rest : List Char}
    (spells : Spells kind lexeme taken rest) :
    kind ≠ .endOfInput := by
  cases spells <;> simp

namespace Token

open Position

/-- Where a stretch is cut from a text, its end is an offset of the text. -/
theorem cut_at
    {text taken rest : List Char} {offset : Nat}
    (inside : offset ≤ text.length)
    (cut : taken ++ rest = text.drop offset) :
    offset + taken.length ≤ text.length ∧
      text.drop (offset + taken.length) = rest ∧
        text.extract offset (offset + taken.length) = taken ∧
          (ofOffset text offset).after taken = ofOffset text (offset + taken.length) := by
  have size := congrArg List.length cut
  rw [List.length_append, List.length_drop] at size
  have takes : text.take (offset + taken.length) = text.take offset ++ taken := by
    rw [List.take_add, ← cut, List.take_left]
  refine ⟨by omega, ?_, ?_, ?_⟩
  · rw [← List.drop_drop, ← cut, List.drop_left]
  · simp only [List.extract_eq_take_drop, Nat.add_sub_cancel_left, ← cut, List.take_left]
  · rw [ofOffset_eq_after, ofOffset_eq_after, takes, after_append]

/-- A slice of a text and the text after it are the text from the start of the slice. -/
theorem extract_append_drop
    {text : List Char} {first past : Nat}
    (le : first ≤ past) :
    text.extract first past ++ text.drop past = text.drop first := by
  have split := List.take_append_drop (past - first) (text.drop first)
  rw [List.drop_drop, Nat.add_sub_cancel' le] at split
  rw [List.extract_eq_take_drop, split]

/-- A piece of a gap extends the gap before the first token. -/
theorem laid_of_gap
    {text taken : List Char} {offset : Nat} {placed : List Placed}
    (piece : ∀ gap rest, gap ++ rest = text.drop (offset + taken.length) → Gap gap rest →
      Gap (taken ++ gap) rest)
    (cut : taken ++ text.drop (offset + taken.length) = text.drop offset)
    (laid : Laid text (offset + taken.length) placed) :
    Laid text offset placed := by
  cases laid with
  | finish inside gap =>
      refine .finish (by omega) ?_
      rw [← cut]
      exact piece _ [] (List.append_nil _) gap
  | @token _ token rest le lt inside gap spells start stop more =>
      refine .token (by omega) lt inside ?_ spells start stop more
      have longer :
          text.extract offset token.first =
            taken ++ text.extract (offset + taken.length) token.first := by
        simp only [List.extract_eq_take_drop]
        rw [← cut, List.take_append, List.take_of_length_le (by omega), Nat.sub_sub]
      rw [longer]
      exact piece _ _ (extract_append_drop le) gap

/-- A token that is cut from a text at an offset. -/
def Placed.cut
    (text : List Char)
    (kind : TokenKind)
    (lexeme : String)
    (offset : Nat)
    (taken : List Char) : Placed :=
  let past := offset + taken.length
  ⟨⟨kind, lexeme, ⟨ofOffset text offset, (ofOffset text past).back⟩⟩, offset, past⟩

/-- A token without a gap before it stands in front of those that are laid after it. -/
theorem laid_of_token
    {text taken : List Char} {offset : Nat} {kind : TokenKind} {lexeme : String}
    {placed : List Placed}
    (advance : 0 < taken.length)
    (within : offset + taken.length ≤ text.length)
    (slice : text.extract offset (offset + taken.length) = taken)
    (spells : Spells kind lexeme taken (text.drop (offset + taken.length)))
    (laid : Laid text (offset + taken.length) placed) :
    Laid text offset (Placed.cut text kind lexeme offset taken :: placed) := by
  have noGap : Gap (text.extract offset offset) (text.drop offset) := by
    rw [List.extract_eq_take_drop, Nat.sub_self, List.take_zero]
    exact .none
  have spelled :
      Spells kind lexeme (text.extract offset (offset + taken.length))
        (text.drop (offset + taken.length)) := by
    rw [slice]
    exact spells
  have place := back_ofOffset (Nat.lt_of_lt_of_le advance (Nat.le_add_left _ offset)) within
  exact .token (Nat.le_refl _) (Nat.lt_add_of_pos_right advance) within noGap spelled rfl place
    laid

/-- The tokens of a text from an offset on are laid along it. -/
theorem tokensFrom_laid
    (text : List Char)
    (offset : Nat)
    (inside : offset ≤ text.length) :
    ∃ placed : List Placed,
      tokensFrom (ofOffset text offset) (text.drop offset) =
          placed.map Placed.token ++ [finish (ofOffset text text.length)] ∧
        (∀ entry ∈ placed, entry.token.kind ≠ .endOfInput) ∧
          Laid text offset placed := by
  induction left : text.length - offset using Nat.strong_induction_on generalizing offset with
  | h left inductionHypothesis =>
      subst left
      cases ahead : text.drop offset with
      | nil =>
          have atEnd : offset = text.length :=
            Nat.le_antisymm inside (List.drop_eq_nil_iff.mp ahead)
          subst atEnd
          refine ⟨[], by simp, by simp, .finish inside ?_⟩
          rw [ahead]
          exact .none
      | cons c more =>
          -- A stretch takes at least one character, so fewer are left after it.
          have cut := (Stretch.taken_append_rest c more).trans ahead.symm
          have advance := List.length_pos_iff.mpr (Stretch.first_taken_ne_nil c more)
          have shape := Stretch.first_cases c more
          obtain ⟨within, dropped, slice, reached⟩ := cut_at inside cut
          obtain ⟨placed, tokens, kinds, laid⟩ := inductionHypothesis _ (by omega) _ within rfl
          rw [dropped] at tokens
          rcases shape with ⟨kind, lexeme, token, spells⟩ | ⟨noToken, piece⟩
          · rw [tokensFrom_cons_of_token token, reached, tokens]
            refine ⟨Placed.cut text kind lexeme offset (Stretch.first c more).taken :: placed,
              rfl, ?_, laid_of_token advance within slice ?_ laid⟩
            · simp only [List.forall_mem_cons]
              exact ⟨spells.kind_ne_endOfInput, kinds⟩
            · rw [dropped]
              exact spells
          · rw [tokensFrom_cons_of_gap noToken, reached, tokens]
            refine ⟨placed, rfl, kinds, laid_of_gap ?_ ?_ laid⟩
            · rw [dropped]
              exact piece
            · rw [dropped]
              exact cut

/--
The tokens of a text are laid along it from its start to its end.

Every token but the last is spelled by its own slice of the text, as long as its
rule allows, and has the place of that slice; what stands between two slices is a
gap; and the last token is the only end of the input, at the place of the end.
-/
theorem scan_laid (text : String) :
    ∃ placed : List Placed,
      scan text = placed.map Placed.token ++ [finish (ofOffset text.toList text.toList.length)] ∧
        (∀ entry ∈ placed, entry.token.kind ≠ .endOfInput) ∧
          Laid text.toList 0 placed :=
  tokensFrom_laid text.toList 0 (Nat.zero_le _)

/-- Every token that is laid along a text has the place of an offset, and is spelled there. -/
theorem stands_of_laid
    {text : List Char} {offset : Nat} {placed : List Placed}
    (laid : Laid text offset placed) :
    ∀ entry ∈ placed,
      entry.token.span.start = ofOffset text entry.first ∧
        ∃ taken rest, taken ++ rest = text.drop entry.first ∧
          Spells entry.token.kind entry.token.lexeme taken rest := by
  induction laid with
  | finish =>
      simp
  | token after advance within gap spells start stop following inductionHypothesis =>
      refine List.forall_mem_cons.mpr ⟨⟨start, _, _, ?_, spells⟩, inductionHypothesis⟩
      exact extract_append_drop (Nat.le_of_lt advance)

/-- The token is spelled by what follows an offset of a text, or it is the end of the text. -/
def StandsAt (token : Token) (text : List Char) (offset : Nat) : Prop :=
  (token.kind = .endOfInput ∧ token.lexeme = "" ∧ text.drop offset = []) ∨
    ∃ taken rest, taken ++ rest = text.drop offset ∧ Spells token.kind token.lexeme taken rest

/-- Every token of a text has the place of an offset that it stands at. -/
theorem stands_of_mem_scan
    {text : String} {token : Token}
    (member : token ∈ scan text) :
    ∃ offset, token.span.start = ofOffset text.toList offset ∧
      token.StandsAt text.toList offset := by
  obtain ⟨placed, tokens, -, laid⟩ := tokensFrom_laid text.toList 0 (Nat.zero_le _)
  change scan text = _ at tokens
  rw [tokens, List.mem_append, List.mem_singleton] at member
  rcases member with member | rfl
  · obtain ⟨entry, entryMember, rfl⟩ := List.mem_map.mp member
    obtain ⟨start, spelled⟩ := stands_of_laid laid entry entryMember
    exact ⟨entry.first, start, .inr spelled⟩
  · exact ⟨text.toList.length, rfl, .inl ⟨rfl, rfl, List.drop_length⟩⟩

/-- Every token of a text but its end is spelled by some stretch of characters. -/
theorem spells_of_mem_scan
    {text : String} {token : Token}
    (member : token ∈ scan text)
    (inside : token.kind ≠ .endOfInput) :
    ∃ taken rest, Spells token.kind token.lexeme taken rest := by
  obtain ⟨offset, -, ⟨ended, -⟩ | ⟨taken, rest, -, spells⟩⟩ := stands_of_mem_scan member
  · exact absurd ended inside
  · exact ⟨taken, rest, spells⟩

/-- Every text has an end among its tokens. -/
theorem exists_isFinish_scan (text : String) :
    ∃ token ∈ scan text, token.isFinish = true := by
  obtain ⟨placed, tokens, -⟩ := tokensFrom_laid text.toList 0 (Nat.zero_le _)
  change scan text = _ at tokens
  rw [tokens]
  exact ⟨_, List.mem_append_right _ (List.mem_singleton_self _), rfl⟩

end Token

end Bhasha
