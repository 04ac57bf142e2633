import Bhasha.Proofs.Evaluation.Details
import Bhasha.Proofs.Syntax.Plain
import Bhasha.Proofs.Token.Order
import Mathlib.Data.List.Forall2

namespace Bhasha

/-!
# Sources that differ in layout only

Two tokens are alike when they differ in no more than their places, the spelling
of a word, and which of the types a word names.  Alike tokens have the same plain
form, so sources with alike tokens are parsed alike, and the trees differ in
details that no run sees.
-/

/-- The tokens differ in place, in the spelling of a word and in the choice of a type only. -/
def Token.Alike (token other : Token) : Prop :=
  match token.kind, other.kind with
  | .keyword word, .keyword otherWord =>
      word = otherWord ∨ (word.isType = true ∧ otherWord.isType = true)
  | kind, otherKind => kind = otherKind ∧ token.lexeme = other.lexeme

namespace Keyword

/-- Words are equal without their types exactly when they are equal or both name a type. -/
theorem untyped_eq_untyped_iff {word other : Keyword} :
    word.untyped = other.untyped ↔
      word = other ∨ (word.isType = true ∧ other.isType = true) := by
  cases isType : other.isType with
  | false =>
      have same : other.untyped = other := (untyped_eq_iff isType).mpr rfl
      rw [same, untyped_eq_iff isType]
      simp
  | true =>
      have integer : other.untyped = .integer := if_pos isType
      rw [integer]
      cases wordIsType : word.isType with
      | false =>
          have differs : word ≠ other := by
            rintro rfl
            cases wordIsType.symm.trans isType
          have keeps : word.untyped = word := (untyped_eq_iff wordIsType).mpr rfl
          have noInteger : word ≠ .integer := by
            rintro rfl
            cases wordIsType
          simp [keeps, differs, noInteger]
      | true =>
          exact iff_of_true (if_pos wordIsType) (.inr ⟨rfl, rfl⟩)

end Keyword

namespace Token

/-- Tokens are alike exactly when they have the same plain form. -/
theorem alike_iff {token other : Token} :
    token.Alike other ↔ token.plain = other.plain := by
  rcases token with ⟨kind, lexeme, span⟩
  rcases other with ⟨otherKind, otherLexeme, otherSpan⟩
  cases kind <;> cases otherKind <;>
    simp [Alike, plain, TokenKind.untyped, TokenKind.plainLexeme, Keyword.untyped_eq_untyped_iff]

instance : DecidableRel Alike :=
  fun _ _ => decidable_of_iff' _ alike_iff

theorem map_plain_of_alike
    {tokens others : List Token}
    (alike : List.Forall₂ Alike tokens others) :
    tokens.map plain = others.map plain := by
  induction alike with
  | nil =>
      rfl
  | cons head tail inductionHypothesis =>
      rw [List.map_cons, List.map_cons, alike_iff.mp head, inductionHypothesis]

/-- A span belongs to one token of a text at most. -/
theorem index_eq_of_span_eq
    {text : String} {index place : Nat} {token other : Token}
    (found : (scan text)[index]? = some token)
    (otherFound : (scan text)[place]? = some other)
    (same : token.span = other.span) :
    index = place := by
  have ordered := List.pairwise_iff_getElem.mp (pairwise_start_scan text)
  obtain ⟨inside, rfl⟩ := List.getElem?_eq_some_iff.mp found
  obtain ⟨otherInside, rfl⟩ := List.getElem?_eq_some_iff.mp otherFound
  rcases Nat.lt_trichotomy index place with before | equal | after
  · have starts := ordered index place inside otherInside before
    rw [same] at starts
    exact absurd starts (lt_irrefl _)
  · exact equal
  · have starts := ordered place index otherInside inside after
    rw [same] at starts
    exact absurd starts (lt_irrefl _)

end Token

/-- The error of a source names the token at an index, and no other token has its span. -/
structure Source.FailsAt (source : Source) (index : Nat) (error : SyntaxError) : Prop where
  failed : source.parse = .error error
  named : ∃ token, (Token.scan source.text)[index]? = some token ∧
    error.token = token.lexeme ∧ error.span = token.span
  only : ∀ (place : Nat) (token : Token), (Token.scan source.text)[place]? = some token →
    error.span = token.span → place = index

/-- The reports agree in all but the syntax error and the digest. -/
structure Report.Agrees (first second : Report) : Prop where
  success : first.success = second.success
  output : first.output = second.output
  rendered : first.rendered? = second.rendered?
  phase : first.phase? = second.phase?
  steps : first.steps = second.steps

/-- The named token of a failed parse is the only one with its span. -/
theorem Source.FailsAt.of_named
    {source : Source} {index : Nat} {error : SyntaxError} {token : Token}
    (failed : source.parse = .error error)
    (found : (Token.scan source.text)[index]? = some token)
    (named : error.token = token.lexeme ∧ error.span = token.span) :
    source.FailsAt index error where
  failed := failed
  named := ⟨token, found, named⟩
  only _ _ otherFound sameSpan :=
    Token.index_eq_of_span_eq otherFound found (sameSpan.symm.trans named.2)

theorem Source.FailsAt.isOk_parse
    {source : Source} {index : Nat} {error : SyntaxError}
    (fails : source.FailsAt index error) :
    source.parse.isOk = false := by
  rw [fails.failed]
  rfl

theorem Report.agrees_ran (outcome : Outcome) (hash otherHash : String) :
    (Report.ran outcome hash).Agrees (.ran outcome otherHash) :=
  ⟨rfl, rfl, rfl, rfl, rfl⟩

/-- Programs that differ in details only give reports that agree. -/
theorem Report.agrees_of_relabel
    {first second : Source} {program other : Program} {labels : Relabel}
    (parsed : first.parse = .ok program)
    (otherParsed : second.parse = .ok other)
    (like : program.relabel labels = other.relabel labels)
    (limits : Limits) :
    (first.run limits).Agrees (second.run limits) := by
  have sameRun := Program.run_eq_of_relabel like limits
  simp only [Source.run, parsed, otherParsed, sameRun]
  exact agrees_ran _ _ _

/--
Layout, the spelling of words and declared types have no influence on a program.

Sources whose tokens are alike one by one either both parse, to trees that are
equal up to spans and declared types and whose runs under any limits agree, or
both fail at the same index with the same code and the same hint.
-/
theorem Source.parse_run_alike
    {first second : Source}
    (alike : List.Forall₂ Token.Alike (Token.scan first.text) (Token.scan second.text)) :
    (∃ program other,
        first.parse = .ok program ∧ second.parse = .ok other ∧
          program.relabel .plain = other.relabel .plain ∧
            ∀ limits, (first.run limits).Agrees (second.run limits)) ∨
      ∃ index error other,
        first.FailsAt index error ∧ second.FailsAt index other ∧
          error.code = other.code ∧ error.expected = other.expected := by
  have same := Token.map_plain_of_alike alike
  have ended := Token.exists_isFinish_scan first.text
  rcases Reader.parseTokens_alike same ended first second with
    ⟨program, other, parsed, otherParsed, like⟩ |
    ⟨index, token, otherToken, error, other, found, otherFound, failed, otherFailed, named,
      otherNamed, sameCode, sameHint⟩
  · exact .inl ⟨program, other, parsed, otherParsed, like,
      Report.agrees_of_relabel parsed otherParsed like⟩
  · exact .inr ⟨index, error, other, .of_named failed found named,
      .of_named otherFailed otherFound otherNamed, sameCode, sameHint⟩

/-- A conditional over a variable, in English and on one line. -/
def flatConditional : Source :=
  .ofText "int a = 1; if (a > 0) \x7b print(\"x\" + a); \x7d else \x7b a = 2; \x7d"

/-- The conditional of `flatConditional` in Bengali, with another type and on more lines. -/
def tallConditional : Source :=
  .ofText <| String.intercalate "\n"
    ["বাক্য a=1;  // one", "যদি(a>0)\x7b", "  লিখো ( \"x\" + a ) ;", "\x7d নতুবা \x7b a = 2; \x7d"]

/-- The two conditionals are alike, so they parse to trees that are alike and run alike. -/
theorem flatConditional_runs_as_tallConditional :
    List.Forall₂ Token.Alike (Token.scan flatConditional.text)
        (Token.scan tallConditional.text) ∧
      ∃ program other,
        flatConditional.parse = .ok program ∧ tallConditional.parse = .ok other ∧
          program.relabel .plain = other.relabel .plain ∧
            ∀ limits, (flatConditional.run limits).Agrees (tallConditional.run limits) := by
  have alike : List.Forall₂ Token.Alike (Token.scan flatConditional.text)
      (Token.scan tallConditional.text) := by
    decide +kernel
  have accepted : flatConditional.parse.isOk = true := by
    decide +kernel
  rcases Source.parse_run_alike alike with runAlike | ⟨index, error, other, fails, -⟩
  · exact ⟨alike, runAlike⟩
  · have refused : flatConditional.parse.isOk = false := fails.isOk_parse
    rw [accepted] at refused
    cases refused

end Bhasha
