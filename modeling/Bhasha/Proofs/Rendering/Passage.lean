import Bhasha.Proofs.Rendering.Reading

namespace Bhasha

/-!
# Rendered expressions within bounds

The text of an expression is read from any place where an operand may start.  How
many parentheses and how many operators are open on the way depends on the tree
alone: `Render.nesting` and `Render.peak`.  `Reader.Passes` says what becomes of
reading: it goes on after the text exactly when the text fits within the bounds,
and stops for too much being open when it does not.  Only an expression that is
not writable, whose numbers have a sign or a power of ten, may stop for another
reason.
-/

open Token

/-- A literal whose text, if it is no number, is read as the same value. -/
def Literal.Legible : Literal → Prop
  | .number _ => True
  | .string value => '"' ∉ value.toList

/-- An expression whose names and texts are legible. -/
def Expression.Legible : Expression → Prop
  | .literal value _ _ => value.Legible
  | .name text _ => IsIdentifier text
  | .binary _ left right _ => left.Legible ∧ right.Legible

theorem Expression.Writable.legible
    {value : Expression}
    (writable : value.Writable) :
    value.Legible := by
  induction value with
  | literal value raw span =>
      cases value with
      | number value =>
          trivial
      | string value =>
          exact writable
  | name text span =>
      exact writable
  | binary operator left right span leftHypothesis rightHypothesis =>
      exact ⟨leftHypothesis writable.1, rightHypothesis writable.2⟩

namespace Render

/-- The operators of an expression that are open at the end of its text. -/
def spine : Expression → Nat
  | .literal .. | .name .. => 0
  | .binary operator left _ _ => (if needsParens operator false left then 0 else spine left) + 1

/-- The most operators that are open at once in the text of an expression. -/
def peak : Expression → Nat
  | .literal .. | .name .. => 0
  | .binary operator left right span =>
      max (peak left) (spine (.binary operator left right span) + peak right)

/-- The most parentheses that are open at once in the text of an expression. -/
def nesting : Expression → Nat
  | .literal .. | .name .. => 0
  | .binary operator left right _ =>
      max (nesting left + (needsParens operator false left).toNat)
        (nesting right + (needsParens operator true right).toNat)

end Render

namespace Token

/-- A sign before a number is an operator of its own. -/
theorem spelled_minus (rest : List Char) :
    ∃ lexeme more, spelled ('-' :: rest) = bare .operator lexeme :: more := by
  by_cases ahead : ∃ more, rest = '=' :: more
  · obtain ⟨more, rfl⟩ := ahead
    have spells : Spells .operator "-=" ['-', '='] more := .operatorEqual (by decide)
    exact ⟨_, _, spelled_append_of_spells spells⟩
  · have noEqual : NotAhead (· = '=') rest := by
      rintro c more rfl
      exact decide_eq_false fun same => ahead ⟨more, same ▸ rfl⟩
    have spells : Spells .operator "-" ['-'] rest := .operator (by decide) noEqual rfl
    exact ⟨_, _, spelled_append_of_spells spells⟩

/-- The words for numbers without digits are names. -/
theorem spells_infinity
    {rest : List Char}
    (ahead : NotAhead isNamePart rest) :
    Spells .identifier "Infinity" ['I', 'n', 'f', 'i', 'n', 'i', 't', 'y'] rest :=
  .identifier (by decide) (by decide) ahead (by decide +kernel)

theorem spells_notANumber
    {rest : List Char}
    (ahead : NotAhead isNamePart rest) :
    Spells .identifier "NaN" ['N', 'a', 'N'] rest :=
  .identifier (by decide) (by decide) ahead (by decide +kernel)

/-- A power of ten after the digits of a number starts with a name of its own. -/
theorem spelled_scientific
    {digits rest : List Char} {sign : Char}
    (plain : Reading.IsPlain digits)
    (signed : sign = '+' ∨ sign = '-') :
    spelled (digits ++ 'e' :: sign :: rest) =
      bare (.number (Reading.readLiteral digits)) (String.ofList digits) ::
        bare .identifier "e" :: spelled (sign :: rest) := by
  have letter : NotAhead (fun c => Reading.isDigit c || c = '.') ('e' :: sign :: rest) := by
    rintro c more ⟨⟩
    decide
  have noLetter : NotAhead isNamePart (sign :: rest) := by
    rintro c more ⟨⟩
    rcases signed with rfl | rfl <;> decide
  have spells : Spells .identifier "e" ['e'] (sign :: rest) :=
    .identifier (by decide) (by decide) noLetter (by decide +kernel)
  rw [spelled_append_of_spells (spells_plain plain letter)]
  exact congrArg _ (spelled_append_of_spells spells)

end Token

namespace Reader

open Grammar
open Render

/--
What becomes of reading some tokens from a place.

Within the bounds it goes on with the remaining tokens from a place of a kind, and
beyond them it stops because too much is open.  Where the tokens are not readable
it may also stop for another reason.
-/
inductive Passes
    (bounds : Bounds)
    (ending : Token)
    (state : State)
    (tokens rest : List Token)
    (kind : State → Prop)
    (within readable : Prop) : Prop
  | through
      {next : State}
      (fits : within)
      (reached : kind next)
      (same : state.readTo bounds ending tokens = next.readTo bounds ending rest)
  | beyond
      (exceeds : ¬ within)
      (stopped : OverBounds (state.readTo bounds ending tokens))
  | refused
      {token : Token} {wanted : Wanted}
      (unreadable : ¬ readable)
      (stopped : state.readTo bounds ending tokens = .error (token, .wanted wanted))

namespace Passes

variable
  {bounds : Bounds} {ending : Token} {state next : State} {token : Token}
  {tokens middle rest : List Token} {kind after : State → Prop}
  {within readable withinRest readableRest : Prop}

theorem here
    (fits : within)
    (reached : kind state) :
    Passes bounds ending state tokens tokens kind within readable :=
  .through fits reached rfl

/-- What follows the first tokens follows all of them. -/
theorem trans
    (first : Passes bounds ending state tokens middle kind within readable)
    (second : ∀ next, kind next →
      Passes bounds ending next middle rest after withinRest readableRest) :
    Passes bounds ending state tokens rest after (within ∧ withinRest)
      (readable ∧ readableRest) := by
  cases first with
  | @through next fits reached same =>
      cases second next reached with
      | through fitsRest reachedRest sameRest =>
          exact .through ⟨fits, fitsRest⟩ reachedRest (same.trans sameRest)
      | beyond exceeds stopped =>
          exact .beyond (fun both => exceeds both.2) (same ▸ stopped)
      | refused unreadable stopped =>
          exact .refused (fun both => unreadable both.2) (same.trans stopped)
  | beyond exceeds stopped =>
      exact .beyond (fun both => exceeds both.1) stopped
  | refused unreadable stopped =>
      exact .refused (fun both => unreadable both.1) stopped

/-- A move is the first step of reading. -/
theorem move
    (moved : Move bounds state token next)
    (following : Passes bounds ending next tokens rest kind within readable) :
    Passes bounds ending state (token :: tokens) rest kind within readable := by
  have same := moved.readTo ending tokens
  cases following with
  | through fits reached sameRest =>
      exact .through fits reached (same.trans sameRest)
  | beyond exceeds stopped =>
      exact .beyond exceeds (same ▸ stopped)
  | refused unreadable stopped =>
      exact .refused unreadable (same.trans stopped)

/-- A place of one kind may be seen as a place of another. -/
theorem imp
    (first : Passes bounds ending state tokens rest kind within readable)
    (weaker : ∀ next, kind next → after next) :
    Passes bounds ending state tokens rest after within readable := by
  cases first with
  | through fits reached same =>
      exact .through fits (weaker _ reached) same
  | beyond exceeds stopped =>
      exact .beyond exceeds stopped
  | refused unreadable stopped =>
      exact .refused unreadable stopped

/-- The conditions may be put in other words. -/
theorem congr
    (first : Passes bounds ending state tokens rest kind within readable)
    (fits : within ↔ withinRest)
    (reads : readableRest → readable) :
    Passes bounds ending state tokens rest kind withinRest readableRest := by
  cases first with
  | through fit reached same =>
      exact .through (fits.mp fit) reached same
  | beyond exceeds stopped =>
      exact .beyond (fun fit => exceeds (fits.mpr fit)) stopped
  | refused unreadable stopped =>
      exact .refused (fun readable => unreadable (reads readable)) stopped

end Passes

/-- The place after an operand that binds tightly, when so many operators are open there. -/
def AfterOperand
    (blocks : List OpenBlock)
    (body : List Statement)
    (heading : Heading)
    (waiting : List Waiting)
    (precedence opened : Nat)
    (state : State) : Prop :=
  ∃ inner found count last joined,
    state = ⟨blocks, body, .operator heading inner found count, last⟩ ∧
      settle precedence inner found count = (waiting, joined, opened)

/-- The bounds leave room for parentheses and operators besides those that are open. -/
def Bounds.HasRoom (bounds : Bounds) (level opened nesting peak : Nat) : Prop :=
  nesting ≤ bounds.nesting - level ∧ peak ≤ bounds.operators - opened

section

variable
  {bounds : Bounds} {ending : Token}
  {blocks : List OpenBlock} {body : List Statement} {heading : Heading}

theorem AfterOperand.loosen
    {waiting : List Waiting} {precedence looser opened : Nat} {state : State}
    (after : AfterOperand blocks body heading waiting precedence opened state)
    (order : looser ≤ precedence)
    (below : Waiting.Below looser waiting) :
    AfterOperand blocks body heading waiting looser opened state := by
  obtain ⟨inner, found, count, last, joined, rfl, settled⟩ := after
  refine ⟨inner, found, count, last, joined, rfl, ?_⟩
  rw [settle_of_settle order settled, settle_of_below below]

/-- An operand of one token is passed. -/
theorem passes_operand
    {token : Token} {value : Expression} {rest : List Token}
    {waiting : List Waiting} {last : Span} {precedence : Nat} {readable : Prop}
    (found : operand? token = some value)
    (below : Waiting.Below precedence waiting) :
    Passes bounds ending ⟨blocks, body, .operand heading waiting, last⟩ (token :: rest) rest
      (AfterOperand blocks body heading waiting precedence (Waiting.opened waiting))
      (bounds.HasRoom (blocks.length + Waiting.parens waiting) (Waiting.opened waiting) 0 0)
      readable :=
  .move (.operand found) <| .here ⟨Nat.zero_le _, Nat.zero_le _⟩
    ⟨waiting, value, Waiting.opened waiting, token.span, value, rfl, settle_of_below below _ _⟩

/-- An operator is refused where an operand must start. -/
theorem readTo_operand_refused
    {token : Token} {rest : List Token} {waiting : List Waiting} {last : Span}
    (operator : token.kind = .operator) :
    State.readTo bounds ending ⟨blocks, body, .operand heading waiting, last⟩ (token :: rest) =
      .error (token, .wanted .expression) := by
  have role : token.role = operatorRole token.lexeme := by
    rw [Token.role, operator]
  have roles : token.role = .assign ∨ (∃ operator, token.role = .binary operator) ∨
      token.role = .unusable := by
    rw [role, operatorRole]
    split
    · exact .inl rfl
    · split
      · exact .inr (.inl ⟨_, rfl⟩)
      · exact .inr (.inr rfl)
  rcases roles with role | ⟨operator, role⟩ | role <;>
    exact State.readTo_of_refused (by simp [role]) (by simp [State.step, State.readOperand, role])
      ending rest

/-- A name is refused after an operand. -/
theorem readTo_operator_refused
    {token : Token} {rest : List Token} {waiting : List Waiting} {last : Span}
    {value : Expression} {opened : Nat}
    (role : token.role = .identifier) :
    ∃ wanted,
      State.readTo bounds ending ⟨blocks, body, .operator heading waiting value opened, last⟩
          (token :: rest) = .error (token, .wanted wanted) := by
  have refused : ∃ wanted,
      State.step bounds ⟨blocks, body, .operator heading waiting value opened, last⟩ token =
        .error (.wanted wanted) := by
    rcases settle_zero_shape waiting value opened with
      ⟨whole, before, joined⟩ | ⟨before, settled, inner, innermost, joined⟩
    · refine ⟨heading.wantedAfter, ?_⟩
      simp only [State.step, State.readOperator, role, joined]
      cases heading <;> simp [State.endExpression, role]
    · refine ⟨.closeParen, ?_⟩
      simp [State.step, State.readOperator, role, joined]
  obtain ⟨wanted, refused⟩ := refused
  exact ⟨wanted, State.readTo_of_refused (by simp [role]) refused ending rest⟩

/-- The text of a number is passed, or it is refused for its sign or its power of ten. -/
theorem passes_number
    (value : Float)
    {rest : List Char}
    (closes : Closes rest)
    {waiting : List Waiting} {last : Span} {precedence : Nat}
    (below : Waiting.Below precedence waiting) :
    Passes bounds ending ⟨blocks, body, .operand heading waiting, last⟩
      (spelled ((NumberStyle.screen.write value).toList ++ rest)) (spelled rest)
      (AfterOperand blocks body heading waiting precedence (Waiting.opened waiting))
      (bounds.HasRoom (blocks.length + Waiting.parens waiting) (Waiting.opened waiting) 0 0)
      (NumberStyle.IsPositional value) := by
  by_cases positional : NumberStyle.IsPositional value
  · obtain ⟨plain, -⟩ := NumberStyle.write_screen positional
    rw [spelled_append_of_spells (spells_of_isPlain plain closes)]
    exact passes_operand rfl below
  · have form := NumberStyle.isScreenForm_write value
    generalize (NumberStyle.screen.write value).toList = text at form
    cases form with
    | plain plain =>
        rw [spelled_append_of_spells (spells_of_isPlain plain closes)]
        exact passes_operand rfl below
    | infinity =>
        rw [spelled_append_of_spells (spells_infinity (closes.notAhead (by decide)))]
        exact passes_operand rfl below
    | notANumber =>
        rw [spelled_append_of_spells (spells_notANumber (closes.notAhead (by decide)))]
        exact passes_operand rfl below
    | @negative text =>
        obtain ⟨lexeme, more, spelling⟩ := spelled_minus (text ++ rest)
        rw [List.cons_append, spelling]
        exact .refused positional (readTo_operand_refused rfl)
    | @scientific digits power sign plain signed =>
        rw [List.append_assoc, List.cons_append, List.cons_append,
          spelled_scientific plain signed]
        refine .move (.operand rfl) ?_
        obtain ⟨wanted, stopped⟩ := @readTo_operator_refused bounds ending blocks body heading
          (bare .identifier "e") (spelled (sign :: (power ++ rest))) waiting _ _ _ rfl
        exact .refused positional stopped

/-- The text of a legible literal is passed. -/
theorem passes_literal
    {value : Literal}
    (legible : value.Legible)
    {rest : List Char}
    (closes : Closes rest)
    {waiting : List Waiting} {last : Span} {precedence : Nat}
    (below : Waiting.Below precedence waiting) :
    Passes bounds ending ⟨blocks, body, .operand heading waiting, last⟩
      (spelled ((Render.literal value).toList ++ rest)) (spelled rest)
      (AfterOperand blocks body heading waiting precedence (Waiting.opened waiting))
      (bounds.HasRoom (blocks.length + Waiting.parens waiting) (Waiting.opened waiting) 0 0)
      value.Writable := by
  cases value with
  | number value =>
      exact passes_number value closes below
  | string value =>
      have writable : (Literal.string value).Writable := legible
      rw [spelled_literal writable closes]
      exact passes_operand rfl below

/--
Text is passed wherever an operand may start that binds as loosely as it does.

At its end `spine` more operators are open than at its start; on the way at most
`nesting` more parentheses and `peak` more operators are open.
-/
structure PassesText
    (bounds : Bounds)
    (text : List Char)
    (precedence spine nesting peak : Nat)
    (readable : Prop) : Prop where
  passes :
    ∀ {ending : Token} {blocks : List OpenBlock} {body : List Statement} {heading : Heading}
      {waiting : List Waiting} {last : Span} {rest : List Char},
      Waiting.Below precedence waiting → Closes rest →
        Passes bounds ending ⟨blocks, body, .operand heading waiting, last⟩
          (spelled (text ++ rest)) (spelled rest)
          (AfterOperand blocks body heading waiting precedence (Waiting.opened waiting + spine))
          (bounds.HasRoom (blocks.length + Waiting.parens waiting) (Waiting.opened waiting)
            nesting peak)
          readable

end

namespace PassesText

variable
  {bounds : Bounds} {text other : List Char} {readable otherReadable : Prop}
  {precedence target spine nesting peak otherPrecedence otherSpine otherNesting otherPeak : Nat}

/-- What is readable is passed without a condition. -/
theorem always
    (inner : PassesText bounds text precedence spine nesting peak readable)
    (reads : readable) :
    PassesText bounds text precedence spine nesting peak True :=
  ⟨fun below closes => (inner.passes below closes).congr Iff.rfl fun _ => reads⟩

/-- Parentheses around a text nest by one, and hold no operators open after them. -/
theorem enclosed
    {parens : Bool}
    (inner : PassesText bounds text precedence spine nesting peak readable)
    (order : parens = false → target ≤ precedence) :
    PassesText bounds (wrapped parens text) target (if parens then 0 else spine)
      (nesting + parens.toNat) peak readable := by
  constructor
  intro ending blocks body heading waiting last rest below closes
  cases parens with
  | false =>
      have loose := order rfl
      exact (inner.passes (below.mono loose) closes).imp fun next after => after.loosen loose below
  | true =>
      have closing : Closes (')' :: rest) := ⟨')', rest, rfl, .inr (.inl rfl)⟩
      have shape : wrapped true text ++ rest = '(' :: (text ++ ')' :: rest) := by
        simp [wrapped]
      rw [shape, spelled_punctuation (by decide)]
      by_cases within : blocks.length + Waiting.parens waiting < bounds.nesting
      · refine .move (.paren rfl within) ?_
        have stopped : Waiting.Below precedence (.paren (Waiting.opened waiting) :: waiting) :=
          trivial
        have closed : ∀ next,
            AfterOperand blocks body heading (.paren (Waiting.opened waiting) :: waiting) precedence
              (Waiting.opened waiting + spine) next →
            Passes bounds ending next (spelled (')' :: rest)) (spelled rest)
              (AfterOperand blocks body heading waiting target (Waiting.opened waiting)) True
              True := by
          rintro next ⟨inner, found, count, last, joined, rfl, settled⟩
          rw [spelled_punctuation (by decide)]
          have joinedAll := settle_of_settle (Nat.zero_le _) settled
          exact .move (.closeParen rfl joinedAll) <| .here trivial
            ⟨waiting, joined, Waiting.opened waiting, _, joined, rfl, settle_of_below below _ _⟩
        refine ((inner.passes stopped closing).trans closed).congr ?_ fun readable => ⟨readable, trivial⟩
        simp only [Bounds.HasRoom, Waiting.parens_paren, Waiting.opened_paren, Bool.toNat_true,
          and_true]
        omega
      · refine .move (.parenTooDeep rfl (Nat.not_lt.mp within)) (.beyond ?_ overBounds_tooDeep)
        simp only [Bounds.HasRoom, Bool.toNat_true]
        omega

/-- An operator between two texts stays open through the second of them. -/
theorem joined
    {operator : BinaryOperator}
    (left :
      PassesText bounds text operator.precedence spine nesting peak readable)
    (right :
      PassesText bounds other (operator.precedence + 1) otherSpine otherNesting otherPeak
        otherReadable) :
    PassesText bounds (text ++ ' ' :: (operator.symbol.toList ++ ' ' :: other))
      operator.precedence (spine + 1) (max nesting otherNesting)
      (max peak (spine + 1 + otherPeak)) (readable ∧ otherReadable) := by
  constructor
  intro ending blocks body heading waiting last rest below closes
  have blank : ∀ more : List Char, Closes (' ' :: more) := fun more => ⟨' ', more, rfl, .inl rfl⟩
  simp only [List.append_assoc, List.cons_append]
  -- The left operands are joined only now that the operator after them is seen.
  have following : ∀ next,
      AfterOperand blocks body heading waiting operator.precedence
        (Waiting.opened waiting + spine) next →
      Passes bounds ending next
        (spelled (' ' :: (operator.symbol.toList ++ ' ' :: (other ++ rest)))) (spelled rest)
        (AfterOperand blocks body heading waiting operator.precedence
          (Waiting.opened waiting + (spine + 1)))
        (Waiting.opened waiting + spine < bounds.operators ∧
          bounds.HasRoom (blocks.length + Waiting.parens waiting)
            (Waiting.opened waiting + spine + 1) otherNesting otherPeak)
        otherReadable := by
    rintro next ⟨inner, found, count, last, leftJoined, rfl, settled⟩
    rw [spelled_space, spelled_append_of_spells (spells_symbol operator _), spelled_space]
    have role := role_symbol operator
    by_cases within : Waiting.opened waiting + spine < bounds.operators
    · refine .move (.operator role settled within) ?_
      have tight : Waiting.Below (operator.precedence + 1)
          (.operand leftJoined operator (Waiting.opened waiting + spine + 1) :: waiting) :=
        Nat.lt_succ_self _
      refine ((right.passes tight closes).imp ?_).congr ?_ id
      · rintro next ⟨inner, found, count, last, rightJoined, rfl, settled⟩
        refine ⟨inner, found, count, last, .join operator leftJoined rightJoined, rfl, ?_⟩
        rw [settle_of_settle (Nat.le_succ _) settled]
        simp only [settle, Nat.le_refl, ↓reduceIte]
        exact settle_of_below below _ _
      · rw [Waiting.parens_operand, Waiting.opened_operand]
        exact (and_iff_right within).symm
    · have refused : State.step bounds ⟨blocks, body, .operator heading inner found count, last⟩
          (bare .operator operator.symbol) = .error .operators := by
        simp only [State.step, State.readOperator, role, settled, within, ↓reduceIte]
      exact .beyond (fun both => within both.1)
        ⟨_, .operators, State.readTo_of_refused (by simp [role]) refused _ _, rfl⟩
  refine ((left.passes below (blank _)).trans following).congr ?_ id
  simp only [Bounds.HasRoom, Nat.max_le]
  omega

end PassesText

/-- The text of an expression is passed, with the parentheses that its operands need. -/
theorem passesText_expression
    {bounds : Bounds} {expression : Expression}
    (legible : expression.Legible) :
    PassesText bounds (expressionText expression) (layer expression).precedence
      (Render.spine expression) (Render.nesting expression) (Render.peak expression)
      expression.Writable := by
  induction expression with
  | literal value raw span =>
      exact ⟨fun below closes => passes_literal legible closes below⟩
  | name text span =>
      constructor
      intro ending blocks body heading waiting last rest below closes
      rw [expressionText,
        spelled_append_of_spells (IsIdentifier.spells legible (closes.notAhead (by decide)))]
      exact passes_operand rfl below
  | binary operator left right span leftHypothesis rightHypothesis =>
      have leftOrder : needsParens operator false left = false →
          operator.precedence ≤ (layer left).precedence := by
        rw [← Layer.precedence_of]
        exact precedence_le_of_left
      have rightOrder : needsParens operator true right = false →
          operator.precedence + 1 ≤ (layer right).precedence := by
        rw [← Layer.precedence_of]
        exact precedence_lt_of_right
      rw [layer, Layer.precedence_of]
      exact ((leftHypothesis legible.1).enclosed leftOrder).joined
        ((rightHypothesis legible.2).enclosed rightOrder)

end Reader

end Bhasha
