import Bhasha.Proofs.Syntax.Run

namespace Bhasha.Reader

/-!
# Reading on top of a place

Tokens that are read from the start of a program may be read as well where other
statements stand before them and other blocks are open around them.  `State.onto`
puts a place on top of such surroundings.  A step on top of them is the step
without them, except that a brace may close one of the blocks around; so with no
blocks around it is the same for every token, refused or not.

The blocks around count as open, so the nesting bound has to leave room for them.
-/

namespace State

/-- The statements of a block, which go on from others if no block is open around it. -/
def bodyOnto (before : List Statement) : List OpenBlock → List Statement → List Statement
  | [], body => body ++ before
  | _ :: _, body => body

/-- The blocks of a place, inside others and after other statements. -/
def blocksOnto
    (outer : List OpenBlock)
    (before : List Statement) : List OpenBlock → List OpenBlock
  | [] => outer
  | block :: blocks =>
      { block with before := bodyOnto before blocks block.before } ::
        blocksOnto outer before blocks

/-- A place inside other blocks and after other statements. -/
def onto (outer : List OpenBlock) (before : List Statement) (state : State) : State where
  blocks := blocksOnto outer before state.blocks
  body := bodyOnto before state.blocks state.body
  expecting := state.expecting
  last := state.last

variable {outer : List OpenBlock} {before : List Statement}

@[simp] theorem length_blocksOnto (blocks : List OpenBlock) :
    (blocksOnto outer before blocks).length = blocks.length + outer.length := by
  induction blocks with
  | nil =>
      simp [blocksOnto]
  | cons block blocks inductionHypothesis =>
      simp [blocksOnto, inductionHypothesis, Nat.add_right_comm]

@[simp] theorem bodyOnto_cons
    (blocks : List OpenBlock)
    (statement : Statement)
    (body : List Statement) :
    bodyOnto before blocks (statement :: body) = statement :: bodyOnto before blocks body := by
  cases blocks <;> rfl

theorem onto_initial :
    State.initial.onto outer before = ⟨outer, before, .statement, State.initial.last⟩ :=
  rfl

/-- A statement that a block completes stands on top of the same surroundings. -/
theorem onto_afterBlock
    (blocks : List OpenBlock)
    (body : List Statement)
    (owner : Owner)
    (block : Block)
    (last : Span) :
    (afterBlock blocks body owner block last).onto outer before =
      afterBlock (blocksOnto outer before blocks) (bodyOnto before blocks body) owner block
        last := by
  cases owner with
  | consequent =>
      rfl
  | alternate | loop =>
      simp only [afterBlock, onto, bodyOnto_cons]

/-- A token starts a statement on top of other places as it does without them. -/
theorem startStatement_onto
    {blocks : List OpenBlock} {body : List Statement} {expecting : Expecting} {last : Span}
    {token : Token}
    (inside : outer = [] ∨ blocks ≠ [] ∨ token.role ≠ .closeBrace) :
    startStatement
        ⟨blocksOnto outer before blocks, bodyOnto before blocks body, expecting, last⟩ token =
      (startStatement ⟨blocks, body, expecting, last⟩ token).map (onto outer before) := by
  by_cases closes : token.role = .closeBrace
  · simp only [startStatement, closes]
    cases blocks with
    | nil =>
        obtain rfl : outer = [] := by
          simpa [closes] using inside
        rfl
    | cons block blocks =>
        rw [blocksOnto, closeBlock_cons, closeBlock_cons, Except.map, onto_afterBlock]
        rfl
  · unfold startStatement
    split
    case h_8 role =>
      exact absurd role closes
    all_goals rfl

theorem endExpression_onto
    (state : State)
    (token : Token)
    (heading : Heading)
    (value : Expression) :
    (state.onto outer before).endExpression token heading value =
      (state.endExpression token heading value).map (onto outer before) := by
  unfold endExpression
  split
  case h_1 | h_2 =>
    simp [onto, after, push, Except.map]
  all_goals rfl

/-- The blocks around leave as much room inside the wider bound as there was without them. -/
theorem depth_onto_lt_iff
    (outer : List OpenBlock)
    (before : List Statement)
    (state : State)
    (waiting : List Waiting)
    (nesting : Nat) :
    (state.onto outer before).depth waiting < nesting + outer.length ↔
      state.depth waiting < nesting := by
  simp only [depth, onto, length_blocksOnto]
  omega

/-- A step on top of other places is the step without them, unless it closes one of their blocks. -/
theorem step_onto
    {state : State} {token : Token} {nesting operators : Nat}
    (inside : outer = [] ∨ state.blocks ≠ [] ∨ token.role ≠ .closeBrace) :
    (state.onto outer before).step ⟨nesting + outer.length, operators⟩ token =
      (state.step ⟨nesting, operators⟩ token).map (onto outer before) := by
  rcases state with ⟨blocks, body, expecting, last⟩
  cases expecting with
  | statement =>
      exact startStatement_onto inside
  | alternate start condition consequent =>
      by_cases alternative : token.role = .keyword .alternative
      · simp only [step, onto, alternative]
        rfl
      · rw [step_alternate alternative, ← startStatement_onto inside, bodyOnto_cons]
        exact step_alternate alternative
  | name | assign | openParen =>
      simp only [step, onto]
      split <;> rfl
  | operand heading waiting =>
      have room := depth_onto_lt_iff outer before
        ⟨blocks, body, .operand heading waiting, last⟩ waiting nesting
      simp only [onto] at room
      simp only [step, onto, readOperand, room]
      split
      case h_4 =>
        split <;> rfl
      all_goals rfl
  | operator heading waiting value opened =>
      simp only [step, onto, readOperator]
      split
      case h_1 =>
        split <;> rfl
      case h_2 =>
        split
        · split <;> rfl
        · exact endExpression_onto ⟨blocks, body, .operator heading waiting value opened, last⟩
            token heading _
  | endOfPrint start value =>
      simp only [step, onto]
      split
      · simp [after, push, Except.map, onto]
      · rfl
  | openBrace owner =>
      have room := depth_onto_lt_iff outer before
        ⟨blocks, body, .openBrace owner, last⟩ [] nesting
      simp only [onto] at room
      simp only [step, onto]
      split
      · simp only [openBlock, room]
        split <;> rfl
      · rfl
  | tooDeep =>
      rfl

/-- The blocks around end where those on top of them end. -/
theorem finishBlocks_onto
    (last : Span)
    (blocks : List OpenBlock)
    (body : List Statement) :
    finishBlocks last (blocksOnto outer before blocks) (bodyOnto before blocks body) =
      finishBlocks last outer ((finishBlocks last blocks body).reverse ++ before) := by
  induction blocks generalizing body with
  | nil =>
      simp [blocksOnto, bodyOnto, finishBlocks]
  | cons block blocks inductionHypothesis =>
      rw [finishBlocks, ← inductionHypothesis, bodyOnto_cons]
      rfl

theorem finish_onto (state : State) :
    (state.onto outer before).finish =
      state.finish.map fun body => finishBlocks state.last outer (body.reverse ++ before) := by
  rcases state with ⟨blocks, body, expecting, last⟩
  cases expecting with
  | statement =>
      exact congrArg Except.ok (finishBlocks_onto last blocks body)
  | alternate start condition consequent =>
      simp only [finish, onto, ← bodyOnto_cons, finishBlocks_onto]
      rfl
  | name | assign | openParen | operand | operator | endOfPrint | openBrace | tooDeep =>
      rfl

theorem readEnd_onto (state : State) (token : Token) :
    (state.onto outer before).readEnd token =
      (state.readEnd token).map fun (body, last) =>
        (finishBlocks last outer (body.reverse ++ before), last) := by
  rw [readEnd, readEnd, finish_onto]
  cases state.finish <;> rfl

end State

/-- Only a place inside a block moves on with a closing brace. -/
theorem Move.blocks_ne_nil
    {bounds : Bounds} {state next : State} {token : Token}
    (moved : Move bounds state token next)
    (closes : token.role = .closeBrace) :
    state.blocks ≠ [] := by
  cases moved with
  | start starts | noAlternative starts =>
      cases starts with
      | close role inside =>
          simp [inside]
      | print role | declare role | conditional role | loop role | assign role =>
          simp [closes] at role
  | operand found =>
      simp [operand?, closes] at found
  | ends joined ended =>
      cases ended with
      | declare role | assign role | print role | conditional role | loop role =>
          simp [closes] at role
  | alternative role | name role | assign role | openParen role | paren role within
  | parenTooDeep role beyond | operator role joined within | closeParen role joined
  | endOfPrint role | openBrace role within | braceTooDeep role beyond =>
      simp [closes] at role

/-- A move is one on top of other places as well. -/
theorem Move.onto
    {outer : List OpenBlock} {before : List Statement}
    {state next : State} {token : Token} {nesting operators : Nat}
    (moved : Move ⟨nesting, operators⟩ state token next) :
    Move ⟨nesting + outer.length, operators⟩ (state.onto outer before) token
      (next.onto outer before) := by
  have inside : outer = [] ∨ state.blocks ≠ [] ∨ token.role ≠ .closeBrace := by
    by_cases closes : token.role = .closeBrace
    · exact .inr (.inl (moved.blocks_ne_nil closes))
    · exact .inr (.inr closes)
  rw [← State.step_eq_ok_iff, State.step_onto inside, State.step_eq_ok_iff.mpr moved]
  rfl

namespace State

variable (outer : List OpenBlock) (before : List Statement)

/-- A run is one on top of other places as well. -/
theorem steps_onto
    {state place : State} {items : List Token} {nesting operators : Nat}
    (run : state.steps ⟨nesting, operators⟩ items = .ok place) :
    (state.onto outer before).steps ⟨nesting + outer.length, operators⟩ items =
      .ok (place.onto outer before) := by
  induction items generalizing state with
  | nil =>
      cases run
      rfl
  | cons token rest inductionHypothesis =>
      obtain ⟨next, moved, run⟩ := steps_cons_eq_ok_iff.mp run
      exact steps_cons_eq_ok_iff.mpr ⟨_, moved.onto, inductionHypothesis run⟩

/--
Tokens are read on top of other places as they are without them.

Where blocks are open around, this holds of tokens that are read to their end; a
brace that is refused without them would close one of them.
-/
theorem readTo_onto
    {state : State} {tokens : List Token} {nesting operators : Nat} {ending : Token}
    (free : outer = [] ∨ ∃ result, state.readTo ⟨nesting, operators⟩ ending tokens = .ok result) :
    (state.onto outer before).readTo ⟨nesting + outer.length, operators⟩ ending tokens =
      (state.readTo ⟨nesting, operators⟩ ending tokens).map fun (body, last) =>
        (finishBlocks last outer (body.reverse ++ before), last) := by
  induction tokens generalizing state with
  | nil =>
      exact readEnd_onto state ending
  | cons token rest inductionHypothesis =>
      by_cases finish : token.role = .endOfInput
      · rw [readTo_of_finish finish, readTo_of_finish finish]
        exact readEnd_onto state token
      cases stepped : state.step ⟨nesting, operators⟩ token with
      | ok next =>
          have moved := step_eq_ok_iff.mp stepped
          rw [moved.onto.readTo, moved.readTo]
          exact inductionHypothesis (by simpa only [moved.readTo] using free)
      | error refusal =>
          have refused := readTo_of_refused finish stepped ending rest
          have alone : outer = [] := by
            rcases free with alone | ⟨result, accepted⟩
            · exact alone
            · rw [refused] at accepted
              cases accepted
          have refusedOnto :
              (state.onto outer before).step ⟨nesting + outer.length, operators⟩ token =
                .error refusal := by
            rw [step_onto (.inl alone), stepped]
            rfl
          rw [refused, readTo_of_refused finish refusedOnto]
          rfl

/-- What is read where a statement may start does not depend on the last token before. -/
theorem readTo_statement_last
    {bounds : Bounds} {ending : Token} {body : List Statement}
    (tokens : List Token)
    (last other : Span) :
    (readTo bounds ending ⟨[], body, .statement, last⟩ tokens).map Prod.fst =
      (readTo bounds ending ⟨[], body, .statement, other⟩ tokens).map Prod.fst := by
  cases tokens with
  | nil =>
      rfl
  | cons token rest =>
      have same : step bounds ⟨[], body, .statement, last⟩ token =
          step bounds ⟨[], body, .statement, other⟩ token :=
        rfl
      rw [readTo, readTo, same]
      split <;> rfl

/-- Where a program may end a statement may start, unless a conditional goes on. -/
theorem exists_statement_of_finish
    {place : State} {program : List Statement}
    (finished : place.finish = .ok program) :
    ∃ body, program = finishBlocks place.last place.blocks body ∧
      ∀ (bounds : Bounds) (ending : Token) (tokens : List Token), NoAlternative tokens →
        place.readTo bounds ending tokens =
          readTo bounds ending ⟨place.blocks, body, .statement, place.last⟩ tokens := by
  rcases place with ⟨blocks, body, expecting, last⟩
  cases expecting with
  | statement =>
      cases finished
      exact ⟨body, rfl, fun bounds ending tokens noAlternative => rfl⟩
  | alternate start condition consequent =>
      cases finished
      exact ⟨_, rfl, fun bounds ending tokens noAlternative =>
        readTo_alternate noAlternative start condition consequent⟩
  | name | assign | openParen | operand | operator | endOfPrint | openBrace | tooDeep =>
      cases finished

end State

end Bhasha.Reader
