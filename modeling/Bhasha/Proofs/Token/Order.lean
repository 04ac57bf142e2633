import Bhasha.Proofs.Token.Scanning
import Mathlib.Order.Defs.LinearOrder
import Mathlib.Tactic.Order

namespace Bhasha

/-!
# Tokens in the order of their text

Positions are linearly ordered and grow with every character, so the places of
different offsets of a text are different.  `Span.slice` is the text between two
positions, and the slice of a token that is laid along a text is the stretch it
was spelled as.  From this come the two facts about the tokens of a text that the
spans of its tree rest on: no two tokens start at the same place, and, unless the
last of them is a string that is not closed, they are `Spaced`.
-/

namespace Position

theorem le_iff {a b : Position} :
    a ≤ b ↔ a.line < b.line ∨ (a.line = b.line ∧ a.column ≤ b.column) :=
  .rfl

theorem lt_iff {a b : Position} :
    a < b ↔ a.line < b.line ∨ (a.line = b.line ∧ a.column < b.column) :=
  .rfl

instance : LinearOrder Position where
  le_refl a := .inr ⟨rfl, Nat.le_refl _⟩
  le_trans a b c first second := by
    rw [le_iff] at *
    omega
  le_antisymm a b first second := by
    rcases a with ⟨line, column⟩
    rcases b with ⟨otherLine, otherColumn⟩
    simp only [le_iff, Position.mk.injEq] at *
    omega
  le_total a b := by
    simp only [le_iff]
    omega
  lt_iff_le_not_ge a b := by
    rw [lt_iff, le_iff, le_iff]
    omega
  toDecidableLE := inferInstance

theorem lt_next (position : Position) (c : Char) :
    position < position.next c := by
  unfold next
  split
  · exact .inl (Nat.lt_succ_self _)
  · exact .inr ⟨rfl, Nat.lt_succ_self _⟩

theorem le_after (position : Position) (text : List Char) :
    position ≤ position.after text := by
  induction text generalizing position with
  | nil =>
      exact le_refl position
  | cons c text inductionHypothesis =>
      exact le_trans (le_of_lt (position.lt_next c)) (inductionHypothesis _)

/-- The places of the offsets of a text are in the order of the offsets. -/
theorem ofOffset_lt_ofOffset
    {text : List Char} {first second : Nat}
    (before : first < second)
    (inside : second ≤ text.length) :
    ofOffset text first < ofOffset text second := by
  induction before with
  | refl =>
      rw [ofOffset_succ inside]
      exact lt_next _ _
  | step before inductionHypothesis =>
      rw [ofOffset_succ inside]
      exact lt_trans (inductionHypothesis (Nat.le_of_succ_le inside)) (lt_next _ _)

theorem ofOffset_le_ofOffset
    {text : List Char} {first second : Nat}
    (before : first ≤ second)
    (inside : second ≤ text.length) :
    ofOffset text first ≤ ofOffset text second := by
  rcases Nat.eq_or_lt_of_le before with rfl | before
  · exact le_refl _
  · exact le_of_lt (ofOffset_lt_ofOffset before inside)

end Position

namespace Span

/-- The characters between the two ends of a span, of a text that starts at a position. -/
def sliceFrom (span : Span) : Position → List Char → List Char
  | _, [] => []
  | position, c :: rest =>
      if span.start ≤ position ∧ position ≤ span.stop then
        c :: span.sliceFrom (position.next c) rest
      else span.sliceFrom (position.next c) rest

/-- The text from the start of a span to its stop, both included. -/
def slice (span : Span) (text : List Char) : List Char :=
  span.sliceFrom Position.first text

theorem sliceFrom_before
    {span : Span} {before : List Char} {position : Position}
    (starts : position.after before ≤ span.start)
    (rest : List Char) :
    span.sliceFrom position (before ++ rest) = span.sliceFrom (position.after before) rest := by
  induction before generalizing position with
  | nil =>
      rfl
  | cons c before inductionHypothesis =>
      have ahead : position < span.start :=
        lt_of_lt_of_le (position.lt_next c) (le_trans (Position.le_after _ before) starts)
      have outside : ¬ (span.start ≤ position ∧ position ≤ span.stop) :=
        fun inside => not_le_of_gt ahead inside.1
      rw [List.cons_append, sliceFrom, if_neg outside]
      exact inductionHypothesis starts

theorem sliceFrom_after
    {span : Span} {position : Position}
    (past : span.stop < position)
    (rest : List Char) :
    span.sliceFrom position rest = [] := by
  induction rest generalizing position with
  | nil =>
      rfl
  | cons c rest inductionHypothesis =>
      have outside : ¬ (span.start ≤ position ∧ position ≤ span.stop) :=
        fun inside => not_le_of_gt past inside.2
      rw [sliceFrom, if_neg outside]
      exact inductionHypothesis (lt_trans past (position.lt_next c))

/-- A slice takes the characters up to the one at its stop. -/
theorem sliceFrom_inside
    {span : Span} {inner : List Char} {position : Position}
    (starts : span.start ≤ position)
    (stops : position.after inner = span.stop)
    (c : Char)
    (rest : List Char) :
    span.sliceFrom position (inner ++ c :: rest) = inner ++ [c] := by
  induction inner generalizing position with
  | nil =>
      have atStop : position = span.stop := stops
      have past : span.stop < position.next c := atStop ▸ position.lt_next c
      rw [List.nil_append, sliceFrom, if_pos ⟨starts, le_of_eq atStop⟩, sliceFrom_after past]
      rfl
  | cons first inner inductionHypothesis =>
      have before : position < position.next first := position.lt_next first
      have inside : position ≤ span.stop :=
        le_of_lt (lt_of_lt_of_le before (stops ▸ Position.le_after _ inner))
      rw [List.cons_append, sliceFrom, if_pos ⟨starts, inside⟩,
        inductionHypothesis (le_trans starts (le_of_lt before)) stops]
      rfl

/-- A slice is the stretch of a text that its two positions enclose. -/
theorem slice_append (before inner : List Char) (c : Char) (rest : List Char) :
    slice ⟨Position.first.after before, Position.first.after (before ++ inner)⟩
        (before ++ (inner ++ c :: rest)) = inner ++ [c] := by
  rw [slice, sliceFrom_before (le_refl _)]
  exact sliceFrom_inside (le_refl _) (Position.after_append _ before inner).symm c rest

/-- The text between the places of two offsets is the text between the offsets. -/
theorem slice_ofOffset
    {text : List Char} {first past : Nat}
    (before : first < past)
    (inside : past ≤ text.length) :
    slice ⟨.ofOffset text first, .ofOffset text (past - 1)⟩ text = text.extract first past := by
  obtain ⟨last, rfl⟩ : ∃ last, past = last + 1 :=
    ⟨past - 1, (Nat.sub_add_cancel (Nat.zero_lt_of_lt before)).symm⟩
  rw [Nat.add_sub_cancel, Position.ofOffset_eq_after, Position.ofOffset_eq_after]
  have firstLe : first ≤ last := Nat.le_of_lt_succ before
  have lastInside : last < text.length := inside
  have drops : text.extract first last ++ text[last] :: text.drop (last + 1) = text.drop first := by
    rw [← List.drop_eq_getElem_cons, Token.extract_append_drop firstLe]
  have takes : text.take last = text.take first ++ text.extract first last := by
    rw [List.extract_eq_take_drop, ← List.take_add, Nat.add_sub_cancel' firstLe]
  have whole := slice_append (text.take first) (text.extract first last) text[last]
    (text.drop (last + 1))
  rw [drops, List.take_append_drop, ← takes] at whole
  rw [whole, List.extract_eq_take_drop, List.extract_eq_take_drop, Nat.succ_sub firstLe,
    List.take_add_one, List.getElem?_drop, Nat.add_sub_cancel' firstLe,
    List.getElem?_eq_getElem lastInside]
  rfl

/-- A slice may run over the end of a line. -/
example : slice ⟨⟨1, 2⟩, ⟨2, 1⟩⟩ ['a', 'b', '\n', 'c', 'd'] = ['b', '\n', 'c'] := by
  decide

end Span

namespace Token

/-- The text that a token is written as; the lexeme of a string has no quotes. -/
def spelling (token : Token) : List Char :=
  match token.kind with
  | .string => '"' :: (token.lexeme.toList ++ ['"'])
  | _ => token.lexeme.toList

/-- The text over the span of a token is the one that the token is written as. -/
def Written (text : List Char) (token : Token) : Prop :=
  token.span.slice text = token.spelling

/-- Tokens that are written in a text one after the other, from a position on. -/
inductive Spaced (text : List Char) : Position → List Token → Prop
  | nil {low : Position} :
      Spaced text low []
  | cons
      {low past : Position} {token : Token} {rest : List Token}
      (after : low ≤ token.span.start)
      (ordered : token.span.start ≤ token.span.stop)
      (before : token.span.stop < past)
      (written : token.Written text)
      (following : Spaced text past rest) :
      Spaced text low (token :: rest)

theorem Spaced.written
    {text : List Char} {low : Position} {tokens : List Token}
    (spaced : Spaced text low tokens) :
    ∀ token ∈ tokens, token.Written text := by
  induction spaced with
  | nil =>
      intro token member
      cases member
  | cons after ordered before written following inductionHypothesis =>
      exact List.forall_mem_cons.mpr ⟨written, inductionHypothesis⟩

end Token

/-- Characters of a class do not end with one that the class refuses. -/
theorem getLast?_ne_of_all
    (test : Char → Bool)
    {text : List Char} {c : Char}
    (all : text.all test = true)
    (refused : test c = false) :
    text.getLast? ≠ some c := by
  intro last
  have accepted := List.all_eq_true.mp all c (List.mem_of_getLast? last)
  rw [refused] at accepted
  cases accepted

theorem all_isNamePart
    {start : Char} {word : List Char}
    (starts : isNameStart start = true)
    (all : word.all isNamePart = true) :
    (start :: word).all isNamePart = true := by
  rw [List.all_cons, all, isNamePart, starts]
  rfl

/-- The characters that the text of a token is made of, unless it is a string. -/
def isInk (c : Char) : Bool :=
  isNamePart c || isOperatorStart c || isPunctuation c || c = '.'

theorem isInk_of_isDigit
    {c : Char}
    (digit : Reading.isDigit c = true) :
    isInk c = true := by
  simp [isInk, isNamePart, digit]

/-- A token that is no string is written as its text, without blanks. -/
theorem Spells.inked
    {kind : TokenKind} {lexeme : String} {taken rest : List Char}
    (spells : Spells kind lexeme taken rest)
    (noString : kind ≠ .string) :
    lexeme.toList = taken ∧ taken ≠ [] ∧ taken.all isInk = true := by
  cases spells with
  | whole some digits ahead =>
      rw [List.all_eq_true] at digits ⊢
      exact ⟨String.toList_ofList, some, fun c member => isInk_of_isDigit (digits c member)⟩
  | decimal some digits decimals ahead =>
      rw [List.all_eq_true] at digits decimals
      refine ⟨String.toList_ofList, by simp, ?_⟩
      simp only [List.all_append, List.all_cons, Bool.and_eq_true, List.all_eq_true]
      exact ⟨fun c member => isInk_of_isDigit (digits c member), by decide,
        fun c member => isInk_of_isDigit (decimals c member)⟩
  | closed noQuote | unterminated noQuote =>
      exact absurd rfl noString
  | keyword start word ahead found | identifier start word ahead found =>
      have parts := List.all_eq_true.mp (all_isNamePart start word)
      refine ⟨String.toList_ofList, List.cons_ne_nil _ _, List.all_eq_true.mpr ?_⟩
      intro c member
      rw [isInk, parts c member]
      rfl
  | operator start ahead noComment =>
      refine ⟨String.toList_ofList, List.cons_ne_nil _ _, ?_⟩
      simp [isInk, start]
  | operatorEqual start =>
      refine ⟨String.toList_ofList, List.cons_ne_nil _ _, ?_⟩
      simp [isInk, start]
      decide
  | punctuation mark =>
      refine ⟨String.toList_ofList, List.cons_ne_nil _ _, ?_⟩
      simp [isInk, mark]

/-- A token is written in full, unless it is a string up to the end of the text. -/
theorem Spells.written_or_unterminated
    {kind : TokenKind} {lexeme : String} {taken rest : List Char}
    (spells : Spells kind lexeme taken rest)
    (span : Span) :
    (Token.spelling ⟨kind, lexeme, span⟩ = taken ∧ taken.getLast? ≠ some '\n') ∨
      (kind = .string ∧ rest = []) := by
  by_cases isString : kind = .string
  · subst isString
    cases spells with
    | @closed body rest noQuote =>
        refine .inl ⟨by simp [Token.spelling], ?_⟩
        rw [← List.cons_append, List.getLast?_append]
        simp
    | unterminated noQuote =>
        exact .inr ⟨rfl, rfl⟩
  · obtain ⟨text, -, ink⟩ := spells.inked isString
    have noBreak : taken.getLast? ≠ some '\n' := getLast?_ne_of_all isInk ink (by decide)
    refine .inl ⟨?_, noBreak⟩
    cases kind <;> first | exact text | exact absurd rfl isString

/-- The last character of a slice is the one before its end. -/
theorem getLast?_extract
    {text : List Char} {first past : Nat}
    (before : first < past)
    (inside : past ≤ text.length) :
    (text.extract first past).getLast? = text[past - 1]? := by
  have index : min (past - first) (text.length - first) - 1 = past - 1 - first := by
    omega
  have place : first + (past - 1 - first) = past - 1 := by
    omega
  rw [List.extract_eq_take_drop, List.getLast?_eq_getElem?, List.length_take, List.length_drop,
    index, List.getElem?_take_of_lt (by omega), List.getElem?_drop, place]

namespace Laid

/-- Nothing is laid after the end of a text. -/
theorem eq_nil_of_end
    {text : List Char} {placed : List Placed} {offset : Nat}
    (laid : Laid text offset placed)
    (ended : text.drop offset = []) :
    placed = [] := by
  cases laid with
  | finish inside gap =>
      rfl
  | token le lt inside gap spells start stop more =>
      have atEnd := List.drop_eq_nil_iff.mp ended
      omega

/-- Tokens that are laid along a text are spaced, unless the last is an unclosed string. -/
theorem spaced
    {text : List Char} {placed : List Placed} {offset : Nat}
    (laid : Laid text offset placed) :
    Token.Spaced text (.ofOffset text offset) (placed.map Placed.token) ∨
      ∃ before last, placed = before ++ [last] ∧ last.token.kind = .string := by
  induction laid with
  | finish inside gap =>
      exact .inl .nil
  | @token offset entry rest le lt inside gap spells start stop more inductionHypothesis =>
      rcases spells.written_or_unterminated entry.token.span with
        ⟨spelled, noFeed⟩ | ⟨isString, ended⟩
      · rcases inductionHypothesis with spaced | ⟨before, last, rfl, isString⟩
        · refine .inl ?_
          rw [getLast?_extract lt inside] at noFeed
          have stops := stop noFeed
          have lastInside : entry.past - 1 < entry.past := Nat.sub_one_lt_of_lt lt
          refine .cons ?_ ?_ ?_ ?_ spaced
          · rw [start]
            exact Position.ofOffset_le_ofOffset le (by omega)
          · rw [start, stops]
            exact Position.ofOffset_le_ofOffset (by omega) (by omega)
          · rw [stops]
            exact Position.ofOffset_lt_ofOffset lastInside inside
          · have span : entry.token.span =
                ⟨.ofOffset text entry.first, .ofOffset text (entry.past - 1)⟩ := by
              rw [← start, ← stops]
            rw [Token.Written, spelled, span]
            exact Span.slice_ofOffset lt inside
        · exact .inr ⟨entry :: before, last, rfl, isString⟩
      · rw [eq_nil_of_end more ended]
        exact .inr ⟨[], entry, rfl, isString⟩

/-- Tokens start in the order in which they are laid, all of them before the end of the text. -/
theorem pairwise_start
    {text : List Char} {placed : List Placed} {offset : Nat}
    (laid : Laid text offset placed) :
    (∀ entry ∈ placed, offset ≤ entry.first ∧ entry.first < text.length ∧
        entry.token.span.start = .ofOffset text entry.first) ∧
      placed.Pairwise fun first second => first.first < second.first := by
  induction laid with
  | finish inside gap =>
      simp
  | @token offset entry rest le lt inside gap spells start stop more inductionHypothesis =>
      obtain ⟨bounds, ordered⟩ := inductionHypothesis
      refine ⟨List.forall_mem_cons.mpr ⟨⟨le, by omega, start⟩, ?_⟩,
        List.pairwise_cons.mpr ⟨?_, ordered⟩⟩
      · intro other member
        obtain ⟨after, within, place⟩ := bounds other member
        exact ⟨by omega, within, place⟩
      · intro other member
        exact Nat.lt_of_lt_of_le lt (bounds other member).1

end Laid

namespace Token

/-- No two tokens of a text start at the same place. -/
theorem pairwise_start_scan (text : String) :
    (scan text).Pairwise fun first second => first.span.start < second.span.start := by
  obtain ⟨placed, tokens, -, laid⟩ := tokensFrom_laid text.toList 0 (Nat.zero_le _)
  change scan text = _ at tokens
  obtain ⟨bounds, ordered⟩ := laid.pairwise_start
  rw [tokens, List.pairwise_append, List.pairwise_map]
  refine ⟨?_, List.pairwise_singleton _ _, ?_⟩
  · refine ordered.imp_of_mem ?_
    intro first second firstMember secondMember before
    rw [(bounds first firstMember).2.2, (bounds second secondMember).2.2]
    exact Position.ofOffset_lt_ofOffset before (Nat.le_of_lt (bounds second secondMember).2.1)
  · intro token member finish isFinish
    obtain ⟨entry, entryMember, rfl⟩ := List.mem_map.mp member
    rw [List.mem_singleton.mp isFinish, (bounds entry entryMember).2.2]
    exact Position.ofOffset_lt_ofOffset (bounds entry entryMember).2.1 (Nat.le_refl _)

end Token

end Bhasha
