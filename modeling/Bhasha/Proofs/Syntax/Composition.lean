import Bhasha.Proofs.Syntax.Frame
import Bhasha.Proofs.Syntax.Parsing

namespace Bhasha

open Grammar

/-!
# Programs one after the other

The braces of some tokens tell how many blocks are open after them.  Where as many
are closed as were opened no block is open, and what follows is read as if it
stood alone: its statements come after those before it, with the same spans, and
what is refused in it is refused in the same way.
-/

namespace Token

/-- The tokens of a list that have some role. -/
def countRole (role : Role) (tokens : List Token) : Nat :=
  tokens.countP fun token => token.role = role

theorem countRole_cons (role : Role) (token : Token) (tokens : List Token) :
    countRole role (token :: tokens) =
      countRole role tokens + if token.role = role then 1 else 0 := by
  simp [countRole, List.countP_cons]

/-- Only a keyword has its role. -/
theorem role_eq_keyword_iff (token : Token) (keyword : Keyword) :
    token.role = .keyword keyword ↔ token.kind = .keyword keyword := by
  rcases token with ⟨kind, lexeme, span⟩
  cases kind with
  | operator =>
      exact iff_of_false (role_ne_of_isMark (isMark_operatorRole lexeme) rfl) nofun
  | punctuation =>
      exact iff_of_false (role_ne_of_isMark (isMark_punctuationRole lexeme) rfl) nofun
  | keyword | identifier | number | string | endOfInput =>
      simp [role]

end Token

namespace Reader

open Token

/-- A token of a statement opens no block, and it closes one if it is a closing brace. -/
theorem Starts.length_blocks
    {blocks : List OpenBlock} {body : List Statement} {token : Token} {next : State}
    (starts : Starts blocks body token next) :
    next.blocks.length + (if token.role = .closeBrace then 1 else 0) =
      blocks.length + if token.role = .openBrace then 1 else 0 := by
  cases starts with
  | print role | declare role declared | conditional role | loop role | assign role =>
      simp [role]
  | @close block outer role inside =>
      rcases block with ⟨owner, start, before⟩
      cases owner <;> simp [role, inside, State.afterBlock]

/-- A move opens a block with an opening brace and closes one with a closing brace. -/
theorem Move.length_blocks
    {bounds : Bounds} {state next : State} {token : Token}
    (moved : Move bounds state token next)
    (reachable : next.Reachable) :
    next.blocks.length + (if token.role = .closeBrace then 1 else 0) =
      state.blocks.length + if token.role = .openBrace then 1 else 0 := by
  cases moved with
  | start starts | noAlternative starts =>
      exact starts.length_blocks
  | operand found =>
      cases isOperand_of_operand? found with
      | number role | string role | name role =>
          simp [role]
  | ends joined ended =>
      cases ended with
      | declare role | assign role | print role | conditional role | loop role =>
          simp [role]
  | alternative role | name role | assign role | openParen role | paren role within
  | operator role joined within | closeParen role joined | endOfPrint role
  | openBrace role within =>
      simp [role]
  | parenTooDeep | braceTooDeep =>
      exact reachable.elim

/-- As many blocks are open after some tokens as they open and do not close. -/
theorem State.length_blocks_of_steps
    {bounds : Bounds} {state place : State} {items : List Token}
    (run : state.steps bounds items = .ok place)
    (reachable : place.Reachable) :
    place.blocks.length + countRole .closeBrace items =
      state.blocks.length + countRole .openBrace items := by
  induction items generalizing state with
  | nil =>
      cases run
      rfl
  | cons token rest inductionHypothesis =>
      obtain ⟨next, moved, run⟩ := State.steps_cons_eq_ok_iff.mp run
      have nextReachable := State.reachable_of_steps run reachable
      have first := moved.length_blocks nextReachable
      have others := inductionHypothesis run
      rw [countRole_cons, countRole_cons]
      omega

/-- Where a program may end, the nesting bound is not exceeded. -/
theorem State.reachable_of_finish
    {place : State} {program : List Statement}
    (finished : place.finish = .ok program) :
    place.Reachable := by
  rcases place with ⟨blocks, body, expecting, last⟩
  cases expecting with
  | tooDeep =>
      cases finished
  | _ =>
      trivial

/-- The statements of a list of tokens, or the error, come from reading it one token at a time. -/
theorem map_body_parseTokens (source : Source) (tokens : List Token) :
    (parseTokens source tokens).map Program.body =
      (((State.initial.readTo .standard (finishAfter tokens) tokens).map Prod.fst).mapError
        fun (token, refusal) => refusal.toError source token) := by
  rw [← read_eq_readTo, parseTokens]
  cases read .standard tokens <;> rfl

/-- A list that ends with the end of the input lacks none. -/
theorem finishAfter_append (tokens : List Token) (finish : Token) :
    finishAfter (tokens ++ [finish]) = finishAfter [finish] := by
  simp [finishAfter]

/-- After statements that leave no block open, statements are read as if they stood alone. -/
theorem map_fst_readTo_of_finish
    {place : State} {program : List Statement} {tokens : List Token}
    (bounds : Bounds)
    (ending : Token)
    (finished : place.finish = .ok program)
    (closed : place.blocks = [])
    (noAlternative : NoAlternative tokens) :
    (place.readTo bounds ending tokens).map Prod.fst =
      ((State.initial.readTo bounds ending tokens).map Prod.fst).map (program ++ ·) := by
  obtain ⟨body, whole, rested⟩ := State.exists_statement_of_finish finished
  rw [closed] at whole rested
  have alone :
      State.readTo bounds ending ⟨[], body, .statement, State.initial.last⟩ tokens =
        (State.initial.readTo bounds ending tokens).map
          (Prod.map (program ++ ·) id) := by
    have onto : (State.initial.onto [] body).readTo ⟨bounds.nesting + 0, bounds.operators⟩ ending
        tokens = _ :=
      State.readTo_onto [] body (.inl rfl)
    rw [State.onto_initial] at onto
    refine onto.trans ?_
    simp only [whole, State.finishBlocks, List.reverse_append, List.reverse_reverse]
    rfl
  rw [rested bounds ending tokens noAlternative, State.readTo_statement_last _ _ State.initial.last,
    alone]
  cases State.initial.readTo bounds ending tokens <;> rfl

end Reader

/--
Programs may be put one after the other.

Where the first is accepted and closes as many braces as it opens, and the second
does not go on with its last conditional, both together have the statements of the
first and then those of the second, spans included; and if the second is refused,
both together are refused with the same error.
-/
theorem parseTokens_append
    (source : Source)
    (first second : List Token)
    (finish : Token)
    (program : Program)
    (inside : ∀ token ∈ first, token.kind ≠ .endOfInput)
    (ends : finish.kind = .endOfInput)
    (parsed : Reader.parseTokens source (first ++ [finish]) = .ok program)
    (balanced : Token.countRole .openBrace first = Token.countRole .closeBrace first)
    (notElse : ∀ token ∈ second.head?, token.kind ≠ .keyword .alternative) :
    (Reader.parseTokens source (first ++ second ++ [finish])).map Program.body =
      (Reader.parseTokens source (second ++ [finish])).map fun other =>
        program.body ++ other.body := by
  have finishRole : finish.role = .endOfInput := (finish.role_eq_endOfInput_iff_kind).mpr ends
  have insideRole : ∀ token ∈ first, token.role ≠ .endOfInput :=
    fun token member role => inside token member (token.role_eq_endOfInput_iff_kind.mp role)
  obtain ⟨last, accepted⟩ := Reader.exists_read_of_parseTokens parsed
  obtain ⟨place, run, finished, -⟩ :=
    Reader.exists_steps_of_read insideRole finishRole accepted
  have closed : place.blocks = [] := by
    have count := Reader.State.length_blocks_of_steps run
      (Reader.State.reachable_of_finish finished)
    rw [balanced] at count
    exact List.length_eq_zero_iff.mp (Nat.add_right_cancel count)
  have noAlternative : Reader.NoAlternative (second ++ [finish]) := by
    intro token head
    cases second with
    | nil =>
        cases head
        simp [finishRole]
    | cons start rest =>
        rw [ne_eq, Token.role_eq_keyword_iff]
        exact notElse token head
  have following := Reader.map_fst_readTo_of_finish .standard
    (Reader.finishAfter [finish]) finished closed noAlternative
  have whole := Reader.map_body_parseTokens source (first ++ second ++ [finish])
  have other := Reader.map_body_parseTokens source (second ++ [finish])
  rw [Reader.finishAfter_append] at whole other
  rw [List.append_assoc, Reader.State.readTo_of_steps run, following] at whole
  calc (Reader.parseTokens source (first ++ second ++ [finish])).map Program.body
    _ = ((Reader.parseTokens source (second ++ [finish])).map Program.body).map
          (program.body ++ ·) := by
        rw [List.append_assoc, whole, other]
        cases Reader.State.initial.readTo .standard (Reader.finishAfter [finish])
          (second ++ [finish]) <;> rfl
    _ = (Reader.parseTokens source (second ++ [finish])).map fun other =>
          program.body ++ other.body := by
        cases Reader.parseTokens source (second ++ [finish]) <;> rfl

/-- The tokens of a conditional whose block is closed. -/
def closedConditional : List Token :=
  let token (kind : TokenKind) (lexeme : String) : Token := ⟨kind, lexeme, Span.point .first⟩
  [token (.keyword .conditional) "if", token .punctuation "(", token .identifier "a",
    token .punctuation ")", token .punctuation "\x7b", token .punctuation "\x7d"]

/-- A loop with an open block after a closed conditional is read as it is alone. -/
theorem parseTokens_append_openLoop :
    ∃ program, Reader.parseTokens (.ofText "") (closedConditional ++ [.finish .first]) =
        .ok program ∧
      Token.countRole .openBrace closedConditional =
        Token.countRole .closeBrace closedConditional ∧
        (Reader.parseTokens (.ofText "")
            (closedConditional ++ openLoop.dropLast ++ [.finish .first])).map Program.body =
          .ok (program.body ++ openLoopProgram.body) := by
  let name : Expression := .name "a" (Span.point .first)
  let program : Program :=
    ⟨[.ifThen name (.mk [] (Span.point .first)) (Span.point .first)], Span.point .first⟩
  have parsed :
      Reader.parseTokens (.ofText "") (closedConditional ++ [.finish .first]) = .ok program :=
    rfl
  have alone :
      Reader.parseTokens (.ofText "") (openLoop.dropLast ++ [.finish .first]) =
        .ok openLoopProgram :=
    rfl
  have balanced : Token.countRole .openBrace closedConditional =
      Token.countRole .closeBrace closedConditional :=
    rfl
  refine ⟨program, parsed, balanced, ?_⟩
  have whole := parseTokens_append (.ofText "") closedConditional openLoop.dropLast
    (.finish .first) program (by simp [closedConditional]) rfl parsed balanced
    (by simp [openLoop])
  rw [whole, alone]
  rfl

end Bhasha
