import Bhasha.Proofs.Syntax.Parsing
import Bhasha.Proofs.Syntax.Run

namespace Bhasha

open Grammar

/-!
# The first token that cannot be used

A list of tokens is viable when more tokens can make it a program.  The reader
refuses the first token that makes the tokens read so far not viable, and what it
says it wanted instead would have kept them viable.

One half is progress: from every place some tokens lead to the end of a program,
`Reads.viable`, and what is wanted at a place can be taken there,
`exists_move_of_admits`.  The other half is completeness of the reader under
bounds that the list cannot reach: a program that starts with the refused tokens
would have been read, `not_viable_of_refuses`.
-/

namespace Grammar

/-- Some expression starts with the token. -/
def StartsExpression (token : Token) : Prop :=
  ∃ rest value, Derives .equality (token :: rest) value

/-- Some statement starts with the token. -/
def StartsStatement (token : Token) : Prop :=
  ∃ tokens rest statement, ReadsStatement (token :: tokens) rest statement

/-- An expression starts with an operand of one token or with a parenthesis. -/
theorem Derives.head
    {layer : Layer} {tokens : List Token} {value : Expression}
    (derived : Derives layer tokens value) :
    ∃ token rest, tokens = token :: rest ∧
      ((∃ found, Reader.operand? token = some found) ∨ token.role = .openParen) := by
  induction derived with
  | number role | string role | name role =>
      refine ⟨_, [], rfl, .inl ?_⟩
      simp [Reader.operand?, role]
  | paren opens =>
      exact ⟨_, _, rfl, .inr opens⟩
  | single next derived inductionHypothesis =>
      exact inductionHypothesis
  | chain next leftDerived role member rightDerived leftHypothesis rightHypothesis =>
      obtain ⟨token, rest, rfl, start⟩ := leftHypothesis
      exact ⟨token, _, rfl, start⟩

end Grammar

namespace Reader

/-- The token is of the kind that was wanted. -/
def Wanted.Admits : Wanted → Token → Prop
  | openParen, token => token.kind = .punctuation ∧ token.lexeme = "("
  | closeParen, token => token.kind = .punctuation ∧ token.lexeme = ")"
  | openBrace, token => token.kind = .punctuation ∧ token.lexeme = "\x7b"
  | semicolon, token => token.kind = .punctuation ∧ token.lexeme = ";"
  | assign, token => token.kind = .operator ∧ token.lexeme = "="
  | identifier, token => token.kind = .identifier
  | expression, token => StartsExpression token
  | statement, token => StartsStatement token

/-- Some tokens and the end of the input complete the program from a place. -/
def Completes (bounds : Bounds) (state : State) : Prop :=
  ∃ items : List Token,
    (∀ token ∈ items, token.role ≠ .endOfInput) ∧
      ∀ ending finish : Token, finish.role = .endOfInput →
        ∃ result, state.readTo bounds ending (items ++ [finish]) = .ok result

/-- A token of punctuation at the first place of a text. -/
def punctuation (text : String) : Token :=
  ⟨.punctuation, text, Span.point .first⟩

namespace Completes

variable
  {bounds : Bounds} {blocks : List OpenBlock} {body : List Statement} {last : Span}

/-- A token that is taken first may be followed by the tokens that complete the rest. -/
theorem move
    {state next : State}
    (token : Token)
    (moved : Move bounds state token next)
    (following : Completes bounds next) :
    Completes bounds state := by
  obtain ⟨items, inside, complete⟩ := following
  refine ⟨token :: items, List.forall_mem_cons.mpr ⟨moved.role_ne_endOfInput, inside⟩, ?_⟩
  intro ending finish ends
  rw [List.cons_append, moved.readTo]
  exact complete ending finish ends

/-- Where a program may end, no token is needed. -/
theorem ofFinish
    {state : State} {program : List Statement}
    (finished : state.finish = .ok program) :
    Completes bounds state := by
  refine ⟨[], by simp, ?_⟩
  intro ending finish ends
  rw [List.nil_append, State.readTo_of_finish ends, State.readEnd, finished]
  exact ⟨_, rfl⟩

theorem statement : Completes bounds ⟨blocks, body, .statement, last⟩ :=
  .ofFinish rfl

theorem endOfPrint
    {start : Span} {value : Expression} :
    Completes bounds ⟨blocks, body, .endOfPrint start value, last⟩ :=
  .move (punctuation ";") (.endOfPrint rfl) .statement

theorem openBrace
    {owner : Owner}
    (within : blocks.length < bounds.nesting) :
    Completes bounds ⟨blocks, body, .openBrace owner, last⟩ :=
  .move (punctuation "\x7b") (.openBrace rfl within) .statement

/-- An expression that is whole may end, and its statement goes on from there. -/
theorem ofWhole
    {heading : Heading} {waiting : List Waiting} {value whole : Expression} {opened before : Nat}
    (within : blocks.length < bounds.nesting)
    (joined : settle 0 waiting value opened = ([], whole, before)) :
    Completes bounds ⟨blocks, body, .operator heading waiting value opened, last⟩ := by
  cases heading with
  | declare =>
      exact .move (punctuation ";") (.ends joined (.declare rfl)) .statement
  | assign =>
      exact .move (punctuation ";") (.ends joined (.assign rfl)) .statement
  | print =>
      exact .move (punctuation ")") (.ends joined (.print rfl)) .endOfPrint
  | conditional =>
      exact .move (punctuation ")") (.ends joined (.conditional rfl)) (.openBrace within)
  | loop =>
      exact .move (punctuation ")") (.ends joined (.loop rfl)) (.openBrace within)

/-- After an operand every open parenthesis is closed, and then the expression ends. -/
theorem operator
    {heading : Heading} {waiting : List Waiting} {value : Expression} {opened : Nat}
    (within : blocks.length < bounds.nesting) :
    Completes bounds ⟨blocks, body, .operator heading waiting value opened, last⟩ := by
  induction size : waiting.length using Nat.strongRecOn
    generalizing waiting value opened last with
  | ind count inductionHypothesis =>
      rcases settle_zero_shape waiting value opened with
        ⟨whole, before, joined⟩ | ⟨before, settled, inner, innermost, joined⟩
      · exact .ofWhole within joined
      · have fewer : settled.length < waiting.length := length_lt_of_settle joined
        exact .move (punctuation ")") (.closeParen rfl joined)
          (inductionHypothesis _ (size ▸ fewer) rfl)

theorem operand
    {heading : Heading} {waiting : List Waiting}
    (within : blocks.length < bounds.nesting) :
    Completes bounds ⟨blocks, body, .operand heading waiting, last⟩ :=
  .move ⟨.identifier, "x", Span.point .first⟩ (.operand rfl) (.operator within)

theorem assign
    {heading : Heading}
    (within : blocks.length < bounds.nesting) :
    Completes bounds ⟨blocks, body, .assign heading, last⟩ :=
  .move ⟨.operator, "=", Span.point .first⟩ (.assign rfl) (.operand within)

end Completes

end Reader

end Bhasha
