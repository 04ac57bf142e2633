import Bhasha.Proofs.Syntax.Bounds
import Bhasha.Proofs.Syntax.Soundness

namespace Bhasha

open Grammar

/-!
# Parsing and the grammar

The programs that `Reader.parseTokens` gives are those of the layered grammar,
and every program of the grammar is given unless too much of it is open at once,
which takes as many tokens as may be open.
The grammar has no two trees for one list of tokens: bounds that grow with the
list let the reader find every tree, and it finds one.
-/

namespace Grammar

/-- The end of the input is the last token of a list and no other. -/
def EndsOnce (tokens : List Token) : Prop :=
  ∃ items finish, tokens = items ++ [finish] ∧
    (∀ token ∈ items, token.kind ≠ .endOfInput) ∧ finish.kind = .endOfInput

/-- Trees for the same tokens are equal up to spans. -/
theorem sentence_unique
    {tokens : List Token} {first second : Program}
    (firstDerived : Sentence tokens first)
    (secondDerived : Sentence tokens second) :
    first.relabel .spans = second.relabel .spans := by
  obtain ⟨firstFinish, firstEnds, firstRead⟩ := firstDerived
  obtain ⟨secondFinish, secondEnds, secondRead⟩ := secondDerived
  let bounds : Reader.Bounds := ⟨tokens.length + 1, tokens.length + 1⟩
  have free : ¬ Reader.OverBounds (Reader.read bounds tokens) :=
    Reader.not_overBounds_read (Nat.lt_succ_self _) (Nat.lt_succ_self _)
  obtain ⟨found, last, accepted, like⟩ :=
    (Reader.read_of_readsBody bounds firstEnds firstRead).resolve_left free
  obtain ⟨other, otherLast, otherAccepted, otherLike⟩ :=
    (Reader.read_of_readsBody bounds secondEnds secondRead).resolve_left free
  rw [accepted] at otherAccepted
  cases otherAccepted
  unfold Program.relabel
  rw [← like, otherLike]
  rfl

end Grammar

namespace Token

/-- Only the end of the input has its role. -/
theorem role_eq_endOfInput_iff_kind (token : Token) :
    token.role = .endOfInput ↔ token.kind = .endOfInput := by
  rw [role_eq_endOfInput_iff]
  rcases token with ⟨kind, lexeme, span⟩
  cases kind <;> simp [isFinish]

end Token

namespace Reader

/-- A refusal for too much being open has the code of exceeded limits. -/
theorem Refusal.code_toError_of_isLimit
    {refusal : Refusal}
    (isLimit : refusal.isLimit = true)
    (source : Source)
    (token : Token) :
    (refusal.toError source token).code = SyntaxError.limitExceeded := by
  cases refusal with
  | wanted =>
      cases isLimit
  | nesting | operators =>
      rfl

/-- A refusal for another reason has another code. -/
theorem Refusal.code_toError_wanted
    (what : Wanted)
    (source : Source)
    (token : Token) :
    ((Refusal.wanted what).toError source token).code ≠ SyntaxError.limitExceeded := by
  change codeOf token ≠ SyntaxError.limitExceeded
  unfold codeOf
  repeat' split
  all_goals decide

/-- A program that is parsed is derived by the grammar. -/
theorem sentence_of_parseTokens
    {source : Source} {tokens : List Token} {program : Program}
    (ended : EndsOnce tokens)
    (parsed : parseTokens source tokens = .ok program) :
    Sentence tokens program := by
  obtain ⟨items, finish, rfl, inside, ends⟩ := ended
  rw [← Token.role_eq_endOfInput_iff_kind] at ends
  have items_role : ∀ token ∈ items, token.role ≠ .endOfInput :=
    fun token member role => inside token member (token.role_eq_endOfInput_iff_kind.mp role)
  unfold parseTokens at parsed
  split at parsed
  case h_1 body last accepted =>
    cases parsed
    exact ⟨finish, ends, readsBody_of_read ends items_role accepted⟩
  case h_2 =>
    cases parsed

/-- A program of the grammar is parsed up to spans, unless too much of it is open. -/
theorem parseTokens_of_sentence
    {tokens : List Token} {program : Program}
    (derived : Sentence tokens program)
    (source : Source) :
    (∃ found, parseTokens source tokens = .ok found ∧
        found.relabel .spans = program.relabel .spans) ∨
      ∃ error, parseTokens source tokens = .error error ∧
        error.code = SyntaxError.limitExceeded ∧ maxNesting ≤ tokens.length := by
  obtain ⟨finish, ends, bodyRead⟩ := derived
  rcases read_of_readsBody .standard ends bodyRead with
    ⟨token, refusal, refused, isLimit⟩ | ⟨found, last, accepted, like⟩
  · have long : maxNesting ≤ tokens.length := by
      apply Nat.le_of_not_lt
      intro short
      have fewer : tokens.length < maxOperators := Nat.lt_trans short (by decide)
      exact @not_overBounds_read .standard tokens short fewer ⟨token, refusal, refused, isLimit⟩
    refine .inr ⟨refusal.toError source token, ?_,
      Refusal.code_toError_of_isLimit isLimit _ _, long⟩
    simp only [parseTokens, refused]
  · refine .inl ⟨⟨found, programSpan tokens last⟩, ?_, ?_⟩
    · simp only [parseTokens, accepted]
    · unfold Program.relabel
      rw [like]
      rfl

end Reader

/--
Parsing is sound and complete for the layered grammar.

A program that is parsed is derived by the grammar; a program of the grammar is
parsed up to spans unless too much of it is open at once, which does not happen in
fewer tokens than may be open; and the grammar derives at most one program up to
spans.
-/
theorem parseTokens_sound_and_complete
    (source : Source)
    (tokens : List Token)
    (ended : EndsOnce tokens) :
    (∀ program, Reader.parseTokens source tokens = .ok program → Sentence tokens program) ∧
      (∀ program, Sentence tokens program →
        (∃ found, Reader.parseTokens source tokens = .ok found ∧
            found.relabel .spans = program.relabel .spans) ∨
          ∃ error, Reader.parseTokens source tokens = .error error ∧
            error.code = SyntaxError.limitExceeded ∧ Reader.maxNesting ≤ tokens.length) ∧
      ∀ first second, Sentence tokens first → Sentence tokens second →
        first.relabel .spans = second.relabel .spans := by
  refine ⟨?_, ?_, ?_⟩
  · intro program parsed
    exact Reader.sentence_of_parseTokens ended parsed
  · intro program derived
    exact Reader.parseTokens_of_sentence derived source
  · intro first second firstDerived secondDerived
    exact sentence_unique firstDerived secondDerived

/-- The tokens of a loop over a chain of differences, whose block is not closed. -/
def openLoop : List Token :=
  let token (kind : TokenKind) (lexeme : String) : Token := ⟨kind, lexeme, Span.point .first⟩
  [token (.keyword .loop) "while", token .punctuation "(", token .identifier "a",
    token .operator "-", token .identifier "b", token .operator "-", token .identifier "c",
    token .punctuation ")", token .punctuation "\x7b", token .endOfInput ""]

/-- The program of `openLoop`: the chain is folded to the left, and the block ends with the text. -/
def openLoopProgram : Program :=
  let span := Span.point .first
  let name (text : String) : Expression := .name text span
  let difference : Expression :=
    .binary .subtract (.binary .subtract (name "a") (name "b") span) (name "c") span
  ⟨[.loop difference (.mk [] span) span], span⟩

/-- The list `openLoop` is a sentence with one tree, which is found. -/
theorem parseTokens_openLoop :
    EndsOnce openLoop ∧
      Reader.parseTokens (.ofText "") openLoop = .ok openLoopProgram ∧
        Sentence openLoop openLoopProgram ∧
          ∀ other, Sentence openLoop other →
            other.relabel .spans = openLoopProgram.relabel .spans := by
  have ended : EndsOnce openLoop :=
    ⟨openLoop.dropLast, Token.finish .first, rfl, by simp [openLoop], rfl⟩
  have parsed : Reader.parseTokens (.ofText "") openLoop = .ok openLoopProgram :=
    rfl
  obtain ⟨sound, -, unique⟩ := parseTokens_sound_and_complete (.ofText "") openLoop ended
  have derived := sound openLoopProgram parsed
  exact ⟨ended, parsed, derived, fun other otherDerived => unique _ _ otherDerived derived⟩

end Bhasha
