import Bhasha.Proofs.Syntax.Composition
import Bhasha.Proofs.Syntax.Plain

namespace Bhasha

/-!
# Braces that close what the end of the input leaves open

A program may end inside blocks, which all end there.  The braces that would close
them may as well be written: each of them closes the innermost open block, and up
to spans the statements that the program would have if it ended there stay the
same.  A brace that finds no block open is refused where a statement may start.
-/

/-- Only punctuation closes a block. -/
theorem Token.kind_of_role_closeBrace
    {token : Token}
    (role : token.role = .closeBrace) :
    token.kind = .punctuation := by
  rcases token with ⟨kind, lexeme, span⟩
  cases kind with
  | punctuation =>
      rfl
  | operator =>
      simp only [Token.role, operatorRole] at role
      split at role
      · cases role
      · split at role <;> cases role
  | keyword | identifier | number | string | endOfInput =>
      cases role

namespace Reader

open Token

/-- What a complete block makes of its statement does not depend on spans. -/
theorem Owner.complete_spans
    {block other : Block}
    (owner : Owner)
    (last otherLast : Span)
    (like : block.relabel .spans = other.relabel .spans) :
    (owner.complete block last).relabel .spans =
      (owner.complete other otherLast).relabel .spans := by
  cases owner with
  | consequent start condition =>
      simp only [complete, Statement.relabel, like]
      rfl
  | alternate start condition first =>
      simp only [complete, Statement.relabel, like]
      rfl
  | loop start condition =>
      simp only [complete, Statement.relabel, like]
      rfl

namespace State

/-- Where open blocks end does not matter up to spans. -/
theorem finishBlocks_spans
    {body other : List Statement}
    (last otherLast : Span)
    (blocks : List OpenBlock)
    (like : relabelAll .spans body = relabelAll .spans other) :
    relabelAll .spans (finishBlocks last blocks body) =
      relabelAll .spans (finishBlocks otherLast blocks other) := by
  induction blocks generalizing body other with
  | nil =>
      simp only [finishBlocks, relabelAll_reverse, like]
  | cons block blocks inductionHypothesis =>
      have sameBlock : (Block.mk body.reverse (block.start.merge last)).relabel .spans =
          (Block.mk other.reverse (block.start.merge otherLast)).relabel .spans := by
        simp only [Block.relabel, relabelAll_reverse, like]
        rfl
      refine inductionHypothesis ?_
      simp only [relabelAll, block.owner.complete_spans last otherLast sameBlock]

/-- A program that ends where a block was closed has the statement of that block. -/
theorem finish_afterBlock
    (blocks : List OpenBlock)
    (before : List Statement)
    (owner : Owner)
    (block : Block)
    (last : Span) :
    (afterBlock blocks before owner block last).finish =
      .ok (finishBlocks last blocks (owner.complete block last :: before)) := by
  cases owner <;> rfl

/-- The blocks that are open after one was closed are those around it. -/
theorem blocks_afterBlock
    (blocks : List OpenBlock)
    (before : List Statement)
    (owner : Owner)
    (block : Block)
    (last : Span) :
    (afterBlock blocks before owner block last).blocks = blocks := by
  cases owner <;> rfl

/-- Where a program may end, a closing brace is read as one where a statement may start. -/
theorem exists_step_of_finish
    {place : State} {program : List Statement}
    (finished : place.finish = .ok program) :
    ∃ body, program = finishBlocks place.last place.blocks body ∧
      ∀ (bounds : Bounds) (token : Token), token.role = .closeBrace →
        place.step bounds token =
          startStatement ⟨place.blocks, body, .statement, place.last⟩ token := by
  rcases place with ⟨blocks, body, expecting, last⟩
  cases expecting with
  | statement =>
      cases finished
      exact ⟨body, rfl, fun _ _ _ => rfl⟩
  | alternate start condition consequent =>
      cases finished
      exact ⟨_, rfl, fun _ _ role => step_alternate (by simp [role])⟩
  | name | assign | openParen | operand | operator | endOfPrint | openBrace | tooDeep =>
      cases finished

/-- A closing brace takes a place inside a block to one outside of it with the same program. -/
theorem exists_move_of_closeBrace
    {place : State} {program : List Statement} {token : Token}
    {block : OpenBlock} {outer : List OpenBlock}
    (bounds : Bounds)
    (finished : place.finish = .ok program)
    (inside : place.blocks = block :: outer)
    (role : token.role = .closeBrace) :
    ∃ next closed, Move bounds place token next ∧ next.blocks = outer ∧
      next.finish = .ok closed ∧ relabelAll .spans closed = relabelAll .spans program := by
  obtain ⟨body, rfl, stepped⟩ := exists_step_of_finish finished
  have moved := (stepped bounds token role).trans
    (startStatement_eq_ok_iff.mpr (.close role inside))
  refine ⟨_, _, step_eq_ok_iff.mp moved, blocks_afterBlock _ _ _ _ _,
    finish_afterBlock _ _ _ _ _, ?_⟩
  rw [inside, finishBlocks]
  refine finishBlocks_spans token.span place.last outer ?_
  have sameBlock : (Block.mk body.reverse (block.start.merge token.span)).relabel .spans =
      (Block.mk body.reverse (block.start.merge place.last)).relabel .spans :=
    rfl
  simp only [relabelAll, block.owner.complete_spans token.span place.last sameBlock]

/-- Closing braces take a place to one with as many blocks fewer and the same program. -/
theorem exists_steps_of_closeBraces
    {place : State} {program : List Statement} {closers : List Token}
    (bounds : Bounds)
    (finished : place.finish = .ok program)
    (roles : ∀ token ∈ closers, token.role = .closeBrace)
    (enough : closers.length ≤ place.blocks.length) :
    ∃ next closed, place.steps bounds closers = .ok next ∧
      next.blocks.length + closers.length = place.blocks.length ∧
        next.finish = .ok closed ∧ relabelAll .spans closed = relabelAll .spans program := by
  induction closers generalizing place program with
  | nil =>
      exact ⟨place, program, rfl, rfl, finished, rfl⟩
  | cons token rest inductionHypothesis =>
      rw [List.forall_mem_cons] at roles
      rw [List.length_cons] at enough
      obtain ⟨block, outer, inside⟩ :=
        List.exists_cons_of_length_pos (Nat.lt_of_lt_of_le (Nat.succ_pos _) enough)
      obtain ⟨next, closed, moved, around, nextFinished, like⟩ :=
        exists_move_of_closeBrace bounds finished inside roles.1
      have fewer : next.blocks.length + 1 = place.blocks.length := by
        rw [around, inside, List.length_cons]
      obtain ⟨last, whole, run, count, lastFinished, lastLike⟩ :=
        inductionHypothesis nextFinished roles.2 (by omega)
      refine ⟨last, whole, steps_cons_eq_ok_iff.mpr ⟨next, moved, run⟩, ?_, lastFinished,
        lastLike.trans like⟩
      rw [List.length_cons]
      omega

/-- A closing brace that finds no block open is refused where a statement may start. -/
theorem step_closeBrace_of_closed
    {place : State} {program : List Statement} {token : Token}
    (bounds : Bounds)
    (finished : place.finish = .ok program)
    (closed : place.blocks = [])
    (role : token.role = .closeBrace) :
    place.step bounds token = .error (.wanted .statement) := by
  obtain ⟨body, -, stepped⟩ := exists_step_of_finish finished
  rw [stepped bounds token role, closed]
  simp only [startStatement, role, closeBlock]

end State

/-- A program ends inside as many blocks as its tokens open and do not close. -/
theorem exists_place_of_parseTokens
    {source : Source} {items : List Token} {finish : Token} {program : Program}
    (inside : ∀ token ∈ items, token.role ≠ .endOfInput)
    (ends : finish.role = .endOfInput)
    (parsed : parseTokens source (items ++ [finish]) = .ok program) :
    ∃ place, State.initial.steps .standard items = .ok place ∧
      place.finish = .ok program.body ∧
        place.blocks.length + countRole .closeBrace items = countRole .openBrace items := by
  obtain ⟨_, accepted⟩ := exists_read_of_parseTokens parsed
  obtain ⟨place, run, finished, -⟩ := exists_steps_of_read inside ends accepted
  have count := State.length_blocks_of_steps run (State.reachable_of_finish finished)
  exact ⟨place, run, finished, count.trans (Nat.zero_add _)⟩

/-- A run that ends where a program may end is a program. -/
theorem parseTokens_of_steps
    {items : List Token} {finish : Token} {place : State} {body : List Statement}
    (source : Source)
    (inside : ∀ token ∈ items, token.role ≠ .endOfInput)
    (ends : finish.role = .endOfInput)
    (run : State.initial.steps .standard items = .ok place)
    (finished : place.finish = .ok body) :
    parseTokens source (items ++ [finish]) =
      .ok ⟨body, programSpan (items ++ [finish]) place.last⟩ := by
  obtain ⟨sameItems, -⟩ := itemsOf_of_ends inside ends
  simp only [parseTokens, read, sameItems, run, finished]

/-- A run that stops at a token is the error at that token. -/
theorem parseTokens_of_steps_error
    {items : List Token} {finish token : Token} {refusal : Refusal}
    (source : Source)
    (inside : ∀ item ∈ items, item.role ≠ .endOfInput)
    (ends : finish.role = .endOfInput)
    (refused : State.initial.steps .standard items = .error (token, refusal)) :
    parseTokens source (items ++ [finish]) = .error (refusal.toError source token) := by
  obtain ⟨sameItems, -⟩ := itemsOf_of_ends inside ends
  simp only [parseTokens, read, sameItems, refused]

/-- Where a statement is wanted, a brace is an unexpected token and nothing is suggested. -/
theorem Refusal.toError_closeBrace
    (source : Source)
    {token : Token}
    (role : token.role = .closeBrace) :
    (Refusal.wanted .statement).toError source token =
      .atToken source.name SyntaxError.unexpectedToken token.lexeme token.span
        ((source.line? token.span.start.line).getD "") (some "statement") none := by
  have punctuation := Token.kind_of_role_closeBrace role
  have code : codeOf token = SyntaxError.unexpectedToken := by
    simp [codeOf, Token.isFinish, isReservedWord, isUnknownOperator, punctuation]
  have suggestion : suggestionFor token = none := by
    simp [suggestionFor, isReservedWord, isUnknownOperator, punctuation]
  simp only [toError, code, suggestion, Wanted.hint]

end Reader

/--
Braces that are missing at the end of the input change nothing but spans.

A program closes no more blocks than it opens.  With any of the braces that close
what it leaves open it is the same program up to spans; and one brace more than
that is an unexpected token, where a statement was wanted.
-/
theorem parseTokens_closing
    (source : Source)
    (items : List Token)
    (finish : Token)
    (program : Program)
    (inside : ∀ token ∈ items, token.kind ≠ .endOfInput)
    (ends : finish.kind = .endOfInput)
    (parsed : Reader.parseTokens source (items ++ [finish]) = .ok program) :
    Token.countRole .closeBrace items ≤ Token.countRole .openBrace items ∧
      (∀ closers : List Token, (∀ token ∈ closers, token.role = .closeBrace) →
        Token.countRole .closeBrace items + closers.length ≤ Token.countRole .openBrace items →
          ∃ other, Reader.parseTokens source (items ++ closers ++ [finish]) = .ok other ∧
            other.relabel .spans = program.relabel .spans) ∧
      ∀ (closers : List Token) (last : Token), (∀ token ∈ closers, token.role = .closeBrace) →
        last.role = .closeBrace →
          Token.countRole .closeBrace items + closers.length = Token.countRole .openBrace items →
            Reader.parseTokens source (items ++ closers ++ [last] ++ [finish]) =
              .error (.atToken source.name SyntaxError.unexpectedToken last.lexeme last.span
                ((source.line? last.span.start.line).getD "") (some "statement") none) := by
  have finishRole : finish.role = .endOfInput := finish.role_eq_endOfInput_iff_kind.mpr ends
  have insideRole : ∀ token ∈ items, token.role ≠ .endOfInput :=
    fun token member role => inside token member (token.role_eq_endOfInput_iff_kind.mp role)
  obtain ⟨place, run, finished, count⟩ :=
    Reader.exists_place_of_parseTokens insideRole finishRole parsed
  have notFinish {closers : List Token} (roles : ∀ token ∈ closers, token.role = .closeBrace) :
      ∀ token ∈ items ++ closers, token.role ≠ .endOfInput := by
    intro token member
    rcases List.mem_append.mp member with before | after
    · exact insideRole token before
    · simp [roles token after]
  refine ⟨by omega, fun closers roles enough => ?_, fun closers last roles role all => ?_⟩
  · obtain ⟨next, body, closing, -, nextFinished, like⟩ :=
      Reader.State.exists_steps_of_closeBraces .standard finished roles (by omega)
    rw [← Reader.State.steps_append run] at closing
    refine ⟨_, Reader.parseTokens_of_steps source (notFinish roles) finishRole closing
      nextFinished, ?_⟩
    simp only [Program.relabel, like]
    rfl
  · obtain ⟨next, body, closing, fewer, nextFinished, -⟩ :=
      Reader.State.exists_steps_of_closeBraces .standard finished roles (by omega)
    rw [← Reader.State.steps_append run] at closing
    have closed : next.blocks = [] := List.length_eq_zero_iff.mp (by omega)
    have refused : Reader.State.initial.steps .standard (items ++ closers ++ [last]) =
        .error (last, .wanted .statement) := by
      rw [Reader.State.steps_append closing, Reader.State.steps,
        Reader.State.step_closeBrace_of_closed .standard nextFinished closed role]
    have allRoles : ∀ token ∈ closers ++ [last], token.role = .closeBrace := by
      simpa [or_imp, forall_and] using ⟨roles, role⟩
    have lastInside : ∀ token ∈ items ++ closers ++ [last], token.role ≠ .endOfInput := by
      rw [List.append_assoc]
      exact notFinish allRoles
    rw [Reader.parseTokens_of_steps_error source lastInside finishRole refused,
      Reader.Refusal.toError_closeBrace source role]

/-- Two loops that are left open take two braces, and refuse a third where it stands. -/
theorem parseTokens_closing_openLoops :
    let items := openLoop.dropLast ++ openLoop.dropLast
    let brace : Token := ⟨.punctuation, "\x7d", Span.point ⟨2, 1⟩⟩
    ∃ program,
      Reader.parseTokens (.ofText "") (items ++ [.finish .first]) = .ok program ∧
        (∃ other,
          Reader.parseTokens (.ofText "") (items ++ [brace, brace] ++ [.finish .first]) =
              .ok other ∧
            other.relabel .spans = program.relabel .spans) ∧
          Reader.parseTokens (.ofText "")
              (items ++ [brace, brace] ++ [brace] ++ [.finish .first]) =
            .error (.atToken (Source.ofText "").name 100 "\x7d" brace.span "" (some "statement")
              none) := by
  intro items brace
  let span := Span.point .first
  let name (text : String) : Expression := .name text span
  let difference : Expression :=
    .binary .subtract (.binary .subtract (name "a") (name "b") span) (name "c") span
  let program : Program := ⟨[.loop difference (.mk openLoopProgram.body span) span], span⟩
  have parsed :
      Reader.parseTokens (.ofText "") (items ++ [.finish .first]) = .ok program :=
    rfl
  have roles : ∀ token ∈ [brace, brace], token.role = .closeBrace := by
    simp [brace, Token.role, Token.punctuationRole]
  obtain ⟨-, closing, refusing⟩ := parseTokens_closing (.ofText "") items (.finish .first)
    program (by simp [items, openLoop]) rfl parsed
  refine ⟨program, parsed, closing [brace, brace] roles (by decide), ?_⟩
  exact refusing [brace, brace] brace roles rfl (by decide)

end Bhasha
