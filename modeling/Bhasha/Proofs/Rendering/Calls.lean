import Bhasha.Proofs.Rendering.Passage
import Bhasha.Proofs.Syntax.Admission
import Bhasha.Proofs.Syntax.Plain
import Bhasha.Run

namespace Bhasha

/-!
# Calls that print an expression

The text of an expression stands in a call of the print statement and is parsed
again.  It exceeds the limits when its parentheses or its open operators do, and
otherwise it is parsed as printing the same expression.

A sum whose first operand stands in parentheses that it does not need is parsed
as well.  The parentheses close the operators inside them, so such a sum may have
more operators in one chain than may be open.
-/

open Token
open Grammar
open Reader

namespace Source

/-- A source of one statement that prints what a text says. -/
def printCall (text : String) : Source := .ofText ("print(" ++ text ++ ");")

/-- A source that prints an expression, with the text that the expression is rendered as. -/
def printing (value : Expression) : Source := printCall (Render.expression value)

/-- The parser reports that a limit is exceeded. -/
def ExceedsLimits (source : Source) : Prop :=
  ∃ error, source.parse = .error error ∧ error.code = SyntaxError.limitExceeded

end Source

namespace Program

/-- A program that prints an expression. -/
def ofPrinted (value : Expression) : Program :=
  ⟨[.print value (Span.point .first)], Span.point .first⟩

end Program

/-- What prints an expression up to details has the expression up to details. -/
theorem Program.mem_expressions_of_printed
    {program : Program} {value : Expression}
    (like : program.relabel .details = (ofPrinted value).relabel .details) :
    ∃ found ∈ program.expressions, found.relabel .details = value.relabel .details := by
  rcases program with ⟨_ | ⟨statement, rest⟩, span⟩
  · simp [Program.relabel, ofPrinted, relabelAll] at like
  · simp only [Program.relabel, ofPrinted, relabelAll, Program.mk.injEq, List.cons.injEq] at like
    cases statement with
    | print found span =>
        have same := like.1.1
        simp only [Statement.relabel, Statement.print.injEq] at same
        exact ⟨found, List.mem_append_left _ found.mem_parts, same.1⟩
    | declare | assign | ifThen | ifElse | loop =>
        cases like.1.1

/-- The tokens of a call of the print statement, without their places. -/
theorem spelled_printCall (text : String) :
    spelled (Source.printCall text).text.toList =
      bare (.keyword .print) "print" :: bare .punctuation "(" ::
        spelled (text.toList ++ [')', ';']) := by
  have characters : (Source.printCall text).text.toList =
      ['p', 'r', 'i', 'n', 't'] ++ '(' :: (text.toList ++ [')', ';']) := by
    simp [Source.printCall, Source.ofText]
  have ahead : NotAhead isNamePart ('(' :: (text.toList ++ [')', ';'])) := by
    rintro c more ⟨⟩
    decide
  have spells : Spells (.keyword .print) "print" ['p', 'r', 'i', 'n', 't']
      ('(' :: (text.toList ++ [')', ';'])) :=
    .keyword (by decide) (by decide) ahead (by decide +kernel)
  rw [characters, spelled_append_of_spells spells, Render.spelled_punctuation (by decide)]

/-- The end of a call of the print statement, without places. -/
theorem spelled_endOfCall :
    spelled [')', ';'] =
      [bare .punctuation ")", bare .punctuation ";", bare .endOfInput ""] := by
  rw [Render.spelled_punctuation (by decide), Render.spelled_punctuation (by decide), spelled_nil]

theorem closes_endOfCall : Closes [')', ';'] :=
  ⟨')', [';'], rfl, .inr (.inl rfl)⟩

namespace Source

theorem map_plain_scan (source : Source) :
    (Token.scan source.text).map Token.plain =
      (spelled source.text.toList).map Token.plain := by
  simp only [spelled, List.map_map]
  rfl

/-- What is read off the tokens without their places is parsed. -/
theorem parse_of_spelled
    {source : Source} {body : List Statement} {last : Span}
    (accepted : read .standard (spelled source.text.toList) = .ok (body, last)) :
    ∃ program, source.parse = .ok program := by
  rcases parseTokens_alike source.map_plain_scan (Token.exists_isFinish_scan source.text) source
      source with
    ⟨program, other, parsed, -⟩ | ⟨index, token, other, error, otherError, -, -, -, failed, -⟩
  · exact ⟨program, parsed⟩
  · simp only [parseTokens, accepted] at failed
    cases failed

/-- The code of an error does not depend on the places of the tokens. -/
theorem parse_error_of_spelled
    {source : Source} {token : Token} {refusal : Refusal}
    (refused : read .standard (spelled source.text.toList) = .error (token, refusal)) :
    ∃ error, source.parse = .error error ∧ error.code = (refusal.toError source token).code := by
  rcases parseTokens_alike source.map_plain_scan (Token.exists_isFinish_scan source.text) source
      source with
    ⟨program, other, -, parsed, -⟩ |
    ⟨index, token, other, error, otherError, -, -, failed, otherFailed, -, -, code, -⟩
  · simp only [parseTokens, refused] at parsed
    cases parsed
  · simp only [parseTokens, refused] at otherFailed
    cases otherFailed
    exact ⟨error, failed, code⟩

end Source

section

variable
  {text : String} {precedence spine nesting peak : Nat} {readable : Prop}

/-- What becomes of reading a call of the print statement. -/
theorem passes_printCall
    {bounds : Bounds}
    (passes : PassesText bounds text.toList precedence spine nesting peak readable)
    (ending : Token) :
    Passes bounds ending State.initial (spelled (Source.printCall text).text.toList)
      [bare .endOfInput ""] (fun place => ∃ body, place.finish = .ok body)
      (nesting ≤ bounds.nesting ∧ peak ≤ bounds.operators) readable := by
  rw [spelled_printCall]
  refine .move (.start (.print rfl)) (.move (.openParen rfl) ?_)
  have free : Waiting.Below precedence [] := trivial
  have ended : ∀ next,
      AfterOperand [] [] (.print (Span.point .first)) [] precedence (0 + spine) next →
      Passes bounds ending next (spelled [')', ';']) [bare .endOfInput ""]
        (fun place => ∃ body, place.finish = .ok body) True True := by
    rintro next ⟨inner, found, count, last, joined, rfl, settled⟩
    rw [spelled_endOfCall]
    have whole := settle_of_settle (Nat.zero_le _) settled
    exact .move (.ends whole (.print rfl)) (.move (.endOfPrint rfl) (.here trivial ⟨_, rfl⟩))
  refine ((passes.passes free closes_endOfCall).trans ended).congr ?_ fun reads => ⟨reads, trivial⟩
  exact iff_of_eq (and_true _)

/-- A call of the print statement exceeds a limit when its text does, if it can be read. -/
theorem exceedsLimits_printCall
    (passes : PassesText .standard text.toList precedence spine nesting peak readable) :
    (nesting ≤ maxNesting ∧ peak ≤ maxOperators → ¬ (Source.printCall text).ExceedsLimits) ∧
      (readable → ¬ (nesting ≤ maxNesting ∧ peak ≤ maxOperators) →
        (Source.printCall text).ExceedsLimits) := by
  let source := Source.printCall text
  let ending := finishAfter (spelled source.text.toList)
  have reads : read .standard (spelled source.text.toList) =
      State.initial.readTo .standard ending (spelled source.text.toList) :=
    read_eq_readTo _ _
  cases passes_printCall passes ending with
  | @through place fits reached same =>
      obtain ⟨body, finished⟩ := reached
      have accepted : read .standard (spelled source.text.toList) = .ok (body, place.last) := by
        rw [reads, same, State.readTo_of_finish rfl, State.readEnd, finished]
      obtain ⟨program, parsed⟩ := Source.parse_of_spelled accepted
      refine ⟨?_, fun _ exceeds => absurd fits exceeds⟩
      rintro - ⟨error, failed, -⟩
      cases parsed.symm.trans failed
  | beyond exceeds stopped =>
      obtain ⟨token, refusal, stopped, isLimit⟩ := stopped
      obtain ⟨error, failed, code⟩ := Source.parse_error_of_spelled (reads.trans stopped)
      exact ⟨fun fits => absurd fits exceeds, fun _ _ => ⟨error, failed,
        code.trans (refusal.code_toError_of_isLimit isLimit source token)⟩⟩
  | @refused token wanted unreadable stopped =>
      obtain ⟨error, failed, code⟩ := Source.parse_error_of_spelled (reads.trans stopped)
      refine ⟨?_, fun readable => absurd readable unreadable⟩
      rintro - ⟨other, otherFailed, isLimit⟩
      cases failed.symm.trans otherFailed
      exact Refusal.code_toError_wanted wanted source token (code.symm.trans isLimit)

end

/-- A call whose text derives an expression is parsed as printing it, or exceeds a limit. -/
theorem parse_printCall_of_derives
    {text : String} {tokens : List Token} {value : Expression}
    (spelling : spelled (text.toList ++ [')', ';']) = tokens ++ spelled [')', ';'])
    (derived : Derives .equality tokens value) :
    (∃ found, (Source.printCall text).parse = .ok found ∧
        found.relabel .spans = (Program.ofPrinted value).relabel .spans) ∨
      (Source.printCall text).ExceedsLimits := by
  let source := Source.printCall text
  let call := bare (.keyword .print) "print" :: bare .punctuation "(" ::
    (tokens ++ bare .punctuation ")" :: bare .punctuation ";" :: [bare .endOfInput ""])
  have callRead : ReadsBody call [bare .endOfInput ""] (Program.ofPrinted value).body :=
    .cons (.print rfl rfl derived rfl rfl) .nil
  have same : (Token.scan source.text).map unplaced = call := by
    have spelledCall : spelled source.text.toList = call := by
      rw [spelled_printCall, spelling, spelled_endOfCall]
    exact (map_unplaced_tokensFrom .first source.text.toList).trans spelledCall
  -- The tokens of the call have no places, so to forget these again changes nothing.
  have sameTwice := congrArg (List.map unplaced) same
  rw [List.map_map, show unplaced ∘ unplaced = unplaced from rfl] at sameTwice
  obtain ⟨rest, restSame, sourceRead⟩ := callRead.of_unplaced sameTwice
  obtain ⟨finish, rfl, finishSame⟩ := List.map_eq_singleton_iff.mp restSame
  have sentence : Sentence (Token.scan source.text) (Program.ofPrinted value) :=
    ⟨finish, (role_of_unplaced finishSame).1, sourceRead⟩
  rcases parseTokens_of_sentence sentence source with parsed | ⟨error, failed, code, -⟩
  · exact .inl parsed
  · exact .inr ⟨error, failed, code⟩

theorem Render.toList_expression (value : Expression) :
    (Render.expression value).toList = Render.expressionText value :=
  Render.toList_expressionTo "" value

theorem Render.expression_eq (value : Expression) :
    Render.expression value = String.ofList (Render.expressionText value) := by
  rw [← Render.toList_expression, String.ofList_toList]

/-- The text of a legible expression exceeds the limits for its open operators only. -/
theorem Source.exceedsLimits_printing
    {value : Expression}
    (legible : value.Legible)
    (shallow : Render.nesting value ≤ maxNesting) :
    (Render.peak value ≤ maxOperators → ¬ (printing value).ExceedsLimits) ∧
      (value.Writable → maxOperators < Render.peak value → (printing value).ExceedsLimits) := by
  have passes := @passesText_expression .standard value legible
  rw [← Render.toList_expression] at passes
  obtain ⟨within, beyond⟩ := exceedsLimits_printCall passes
  exact ⟨fun few => within ⟨shallow, few⟩,
    fun writable many => beyond writable fun fits => absurd fits.2 (Nat.not_le.mpr many)⟩

namespace Render

/--
A text of a layer of the grammar that is written for an expression.

Its tokens derive the expression up to details.  At its end `spine` more operators
are open than at its start; on the way at most `nesting` more parentheses and
`peak` more operators are open.
-/
structure Written
    (text : List Char)
    (layer : Layer)
    (value : Expression)
    (spine nesting peak : Nat) : Prop where
  derived :
    ∃ tokens found,
      Derives layer tokens found ∧ found.relabel .details = value.relabel .details ∧
        ∀ {rest : List Char}, Closes rest → spelled (text ++ rest) = tokens ++ spelled rest
  passes : PassesText .standard text layer.precedence spine nesting peak True

namespace Written

variable
  {text other : List Char} {inner target : Layer} {value right : Expression}
  {spine nesting peak otherSpine otherNesting otherPeak : Nat}

/-- A writable expression is rendered as a text that is written for it. -/
theorem of_writable
    (writable : value.Writable) :
    Written (expressionText value) (layer value) value (Render.spine value)
      (Render.nesting value) (Render.peak value) := by
  obtain ⟨found, derived, like⟩ := derives_expressionTokens value
  refine ⟨⟨_, found, derived, like, spelled_expressionText writable⟩, ?_⟩
  exact (passesText_expression writable.legible).always writable

/-- A text stays written for an expression in parentheses, or where less is asked for. -/
theorem enclosed
    {parens : Bool}
    (written : Written text inner value spine nesting peak)
    (order : parens = false → target.precedence ≤ inner.precedence) :
    Written (wrapped parens text) target value (if parens then 0 else spine)
      (nesting + parens.toNat) peak := by
  obtain ⟨⟨tokens, found, derived, like, spelling⟩, passes⟩ := written
  exact ⟨⟨wrappedTokens parens tokens, found, derives_wrapped derived order, like,
    spelled_wrapped spelling parens⟩, passes.enclosed order⟩

/-- An operator between two texts is written for the expression that joins theirs. -/
theorem joined
    {operator : BinaryOperator}
    (first : Written text (Layer.of operator) value spine nesting peak)
    (second : Written other inner right otherSpine otherNesting otherPeak)
    (tight : (Layer.of operator).precedence < inner.precedence)
    (span : Span) :
    Written (text ++ ' ' :: (operator.symbol.toList ++ ' ' :: other)) (Layer.of operator)
      (.binary operator value right span) (spine + 1) (max nesting otherNesting)
      (max peak (spine + 1 + otherPeak)) := by
  obtain ⟨⟨tokens, left, derived, like, spelling⟩, passes⟩ := first
  obtain ⟨⟨otherTokens, found, otherDerived, otherLike, otherSpelling⟩, otherPasses⟩ := second
  refine ⟨⟨_, .binary operator left found span,
    @derives_joined operator _ _ tokens otherTokens _ _ false false derived
      (fun _ => Nat.le_refl _) otherDerived (fun _ => tight) span, ?_,
    spelled_joined spelling otherSpelling operator⟩, ?_⟩
  · simp only [Expression.relabel, like, otherLike]
  · have operand : PassesText .standard other (operator.precedence + 1) otherSpine otherNesting
        otherPeak True := by
      refine @PassesText.enclosed _ _ _ _ _ _ _ _ false otherPasses fun _ => ?_
      rwa [← Layer.precedence_of]
    rw [Layer.precedence_of] at passes ⊢
    exact (passes.joined operand).always ⟨trivial, trivial⟩

/-- A call of the print statement with a text that fits is parsed as printing its expression. -/
theorem parse_printCall
    (written : Written text inner value spine nesting peak)
    (shallow : nesting ≤ maxNesting)
    (few : peak ≤ maxOperators) :
    ∃ found, (Source.printCall (String.ofList text)).parse = .ok found ∧
      found.relabel .details = (Program.ofPrinted value).relabel .details := by
  rw [← @String.toList_ofList text] at written
  obtain ⟨⟨tokens, printed, derived, like, spelling⟩, passes⟩ := written
  rcases parse_printCall_of_derives (spelling closes_endOfCall)
      (derived.loosen (Layer.equality_le _)) with ⟨found, parsed, same⟩ | exceeds
  · refine ⟨found, parsed, (Program.relabel_details_of_spans same).trans ?_⟩
    simp only [Program.ofPrinted, Program.relabel, relabelAll, Statement.relabel, like]
  · exact absurd exceeds ((exceedsLimits_printCall passes).1 ⟨shallow, few⟩)

end Written

end Render

/-- The text of a writable expression that fits is parsed as printing it. -/
theorem Source.parse_printing
    {value : Expression}
    (writable : value.Writable)
    (shallow : Render.nesting value ≤ maxNesting)
    (few : Render.peak value ≤ maxOperators) :
    ∃ found, (printing value).parse = .ok found ∧
      found.relabel .details = (Program.ofPrinted value).relabel .details := by
  rw [printing, Render.expression_eq]
  exact (Render.Written.of_writable writable).parse_printCall shallow few

namespace Expression

/-- A name without a meaning. -/
def operand : Expression := .name "a" (Span.point .first)

/-- The sum of an expression and so many names. -/
def plus (value : Expression) : Nat → Expression
  | 0 => value
  | count + 1 => .binary .add (value.plus count) operand (Span.point .first)

theorem writable_operand : operand.Writable :=
  ⟨Span.point .first, ⟨1, 2⟩, by decide +kernel⟩

end Expression

namespace Render

open Expression

/-- A text and the additions of so many names. -/
def plusText (text : List Char) : Nat → List Char
  | 0 => text
  | count + 1 => plusText text count ++ [' ', '+', ' ', 'a']

/-- All operators of a chain are open at its end. -/
theorem Written.plus
    {text : List Char} {value : Expression} {nesting peak : Nat}
    (written : Written text .term value 0 nesting peak)
    (count : Nat) :
    Written (plusText text count) .term (value.plus count) count nesting (max peak count) := by
  induction count with
  | zero =>
      rwa [Nat.max_zero]
  | succ count inductionHypothesis =>
      have tight : (Layer.of .add).precedence < (layer operand).precedence := by
        decide
      have sum := @Written.joined _ _ _ _ _ _ _ _ _ _ _ .add inductionHypothesis
        (.of_writable writable_operand) tight (Span.point .first)
      have highest : max (max peak count) (count + 1) = max peak (count + 1) := by
        rw [Nat.max_assoc, Nat.max_eq_right (Nat.le_succ count)]
      have same := (Nat.max_zero nesting).symm
      rw [← highest, same]
      exact sum

/-- A chain in parentheses is written for the start of another chain. -/
theorem Written.plus_enclosed
    {text : List Char} {inner : Layer} {value : Expression} {spine nesting peak : Nat}
    (written : Written text inner value spine nesting peak)
    (count : Nat) :
    Written (plusText (wrapped true text) count) .term (value.plus count) count (nesting + 1)
      (max peak count) :=
  (@Written.enclosed _ _ .term _ _ _ _ true written nofun).plus count

theorem written_sum (count : Nat) :
    Written (plusText ['a'] count) .term (operand.plus count) count 0 count := by
  have first : Written ['a'] .term operand 0 0 0 :=
    @Written.enclosed _ _ .term _ _ _ _ false (.of_writable writable_operand) fun _ => by decide
  have sum := first.plus count
  rwa [Nat.zero_max] at sum

/-- A chain in parentheses that is itself the start of a chain. -/
def groupedText (count : Nat) : String :=
  String.ofList (plusText (wrapped true (plusText ['a'] count)) 1)

theorem expressionText_sum (count : Nat) :
    expressionText (operand.plus count) = plusText ['a'] count := by
  induction count with
  | zero =>
      rfl
  | succ count inductionHypothesis =>
      have bare : needsParens .add false (operand.plus count) = false := by
        cases count <;> rfl
      rw [Expression.plus, expressionText, bare, inductionHypothesis]
      rfl

end Render

namespace Source

/-- A chain in parentheses is parsed together with one more operator. -/
theorem parse_groupedText
    {count : Nat}
    (some : 1 ≤ count)
    (few : count ≤ maxOperators) :
    ∃ program, (printCall (Render.groupedText count)).parse = .ok program ∧
      ∃ found ∈ program.expressions,
        found.relabel .details = (Expression.operand.plus (count + 1)).relabel .details := by
  have written := (Render.written_sum count).plus_enclosed 1
  rw [Nat.max_eq_left some] at written
  obtain ⟨program, parsed, like⟩ := written.parse_printCall (by decide) few
  exact ⟨program, parsed, Program.mem_expressions_of_printed like⟩

/-- The text of a chain with more operators than the limit exceeds it. -/
theorem exceedsLimits_printing_sum
    {count : Nat}
    (many : maxOperators < count) :
    (printing (Expression.operand.plus count)).ExceedsLimits := by
  have passes := (Render.written_sum count).passes
  rw [← Render.expressionText_sum, ← Render.toList_expression] at passes
  exact (exceedsLimits_printCall passes).2 trivial fun fits =>
    absurd fits.2 (Nat.not_le.mpr many)

end Source

end Bhasha
