import Bhasha.Proofs.Syntax.Composition
import Bhasha.Proofs.Syntax.Descent
import Bhasha.Proofs.Syntax.Safety

namespace Bhasha

open Grammar

/-!
# Parsing stops at the first end of the input

A descent with a cursor over the whole list, tokens beyond the first end of the
input included, has the result of parsing: calls nest at most two deep for each
token that remains, and three more; a token is found wherever one is looked for,
and what stands beyond the first end of the input is never looked at.
-/

namespace Reader

namespace Reading

open Descent

variable
  {reading : Reading} {blocks : List OpenBlock} {body : List Statement} {heading : Heading}
  {calls : Nat} {last : Span} {cursor : Cursor} {token : Token}

/-- What opens the expression of a statement. -/
inductive Opens : Expecting → Wanted → Heading → Prop
  | assign {heading : Heading} :
      Opens (.assign heading) .assign heading
  | openParen {heading : Heading} :
      Opens (.openParen heading) .openParen heading

/-- A token that is wanted opens the expression of a statement. -/
theorem Opens.moves
    {bounds : Bounds} {expecting : Expecting} {wanted : Wanted}
    (opens : Opens expecting wanted heading)
    (role : some token.role = wanted.role?) :
    Move bounds ⟨blocks, body, expecting, last⟩ token
      ⟨blocks, body, .operand heading [], token.span⟩ := by
  cases opens with
  | assign =>
      exact .assign (Option.some.inj role)
  | openParen =>
      exact .openParen (Option.some.inj role)

theorem Opens.refuses
    {expecting : Expecting} {wanted : Wanted}
    (opens : Opens expecting wanted heading)
    (other : some token.role ≠ wanted.role?) :
    State.Refuses ⟨blocks, body, expecting, last⟩ token wanted := by
  cases opens with
  | assign | openParen =>
      exact refuses_single rfl other

/-- The expression of a statement is read, and then the token that ends it. -/
theorem runs_enclosed
    {expecting : Expecting} {wanted : Wanted}
    (opens : Opens expecting wanted heading)
    (follows : reading.Follows ⟨blocks, body, expecting, last⟩ cursor)
    (enough : 2 * reading.stop ≤ calls + 2 * cursor.index) :
    reading.Runs (enclosed reading.bounds reading.tokens wanted heading.wantedAfter calls) cursor
      fun value next => cursor.index < next.index ∧
        ∃ token, some token.role = heading.wantedAfter.role? ∧
          ∀ state, Ends blocks body value token heading state →
            reading.Follows state next := by
  refine (runs_expect wanted cursor follows.within follows.leads
    fun token found other => opens.refuses other).bind ?_
  rintro opening next - - ⟨openingFound, openingRole, rfl⟩
  have operand := follows.next openingFound (opens.moves openingRole)
    (by cases opens <;> rfl) (by cases opens <;> rfl)
  refine ((readsExpressions reading calls).expression operand
    (by simp only [Cursor.next]; omega)).bind ?_
  rintro value after - - ⟨further, loose, afterLast, reached⟩
  have further : cursor.index + 1 < after.index := further
  refine (runs_expect heading.wantedAfter after reached.within reached.leads
    fun other found role => refuses_operator rfl rfl (loose.role_ne found) role).bind ?_
  rintro closing final - - ⟨found, role, rfl⟩
  refine .pure ?_ ⟨by simp only [Cursor.next]; omega, closing, role, fun state ended => ?_⟩
  · exact reading.ends.succ_le reached.within found
      (heading.wantedAfter.role_ne_endOfInput role)
  · have moved :
        Move reading.bounds
          ⟨blocks, body, .operator heading [] value (Waiting.opened []), afterLast⟩ closing
          state :=
      .ends rfl ended
    exact reached.next found moved (by cases ended <;> rfl) (by cases ended <;> rfl)

/-- The cursor is where a statement may start. -/
def AtStatement
    (reading : Reading)
    (blocks : List OpenBlock)
    (body : List Statement)
    (cursor : Cursor) : Prop :=
  ∃ last, reading.Follows ⟨blocks, body, .statement, last⟩ cursor

/-- A part of a descent reads one statement. -/
def ReadsStatement
    (reading : Reading)
    (blocks : List OpenBlock)
    (body : List Statement)
    (run : Descent Statement)
    (cursor : Cursor) : Prop :=
  reading.Runs run cursor fun found next =>
    cursor.index < next.index ∧ reading.AtStatement blocks (found :: body) next

/-- A statement that is complete is given over the span up to the token before the cursor. -/
theorem runs_complete
    {final : Cursor}
    (complete : Span → Statement)
    (follows : reading.Follows ⟨blocks, complete last :: body, .statement, last⟩ final)
    (further : cursor.index < final.index) :
    reading.Runs (do return complete (← previous reading.tokens)) final fun found next =>
      cursor.index < next.index ∧ reading.AtStatement blocks (found :: body) next :=
  .step (from_previous follows.behind) (Nat.le_refl _)
    (.pure follows.within ⟨further, _, follows⟩)

theorem readsStatement_printing
    (follows : reading.Follows ⟨blocks, body, .statement, last⟩ cursor)
    (found : reading.tokens[cursor.index]? = some token)
    (role : token.role = .keyword .print)
    (enough : 2 * reading.stop ≤ calls + 2 * cursor.index) :
    reading.ReadsStatement blocks body (printing reading.bounds reading.tokens calls) cursor := by
  have started := follows.next found (.start (.print role)) rfl rfl
  refine .step (from_advance found (by simp [role])) (Nat.le_succ _) ?_
  refine (runs_enclosed .openParen started (by simp only [Cursor.next]; omega)).bind ?_
  rintro value next - - ⟨further, closing, closes, ended⟩
  have further : cursor.index + 1 < next.index := further
  have reached := ended _ (.print (Option.some.inj closes))
  refine (runs_expect .semicolon next reached.within reached.leads
    fun other otherFound otherRole => refuses_single rfl otherRole).bind ?_
  rintro semicolon after - - ⟨semicolonFound, semicolonRole, rfl⟩
  have complete :=
    reached.next semicolonFound (.endOfPrint (Option.some.inj semicolonRole)) rfl rfl
  exact runs_complete (fun last => .print value (token.span.merge last)) complete
    (by simp only [Cursor.next]; omega)

theorem readsStatement_declaration
    {keyword : Keyword} {type : DeclaredType}
    (follows : reading.Follows ⟨blocks, body, .statement, last⟩ cursor)
    (found : reading.tokens[cursor.index]? = some token)
    (role : token.role = .keyword keyword)
    (declared : declaredType? keyword = some type)
    (enough : 2 * reading.stop ≤ calls + 2 * cursor.index) :
    reading.ReadsStatement blocks body (declaration reading.bounds reading.tokens type calls)
      cursor := by
  have started := follows.next found (.start (.declare role declared)) rfl rfl
  refine .step (from_advance found (by simp [role])) (Nat.le_succ _) ?_
  refine (runs_expect .identifier cursor.next started.within started.leads
    fun other otherFound otherRole => refuses_single rfl otherRole).bind ?_
  rintro name next - - ⟨nameFound, nameRole, rfl⟩
  have named := started.next nameFound (.name (Option.some.inj nameRole)) rfl rfl
  refine (runs_enclosed .assign named (by simp only [Cursor.next]; omega)).bind ?_
  rintro value after - - ⟨further, semicolon, ends, ended⟩
  have further : cursor.index + 1 + 1 < after.index := further
  have complete := ended _ (.declare (Option.some.inj ends))
  exact runs_complete
    (fun last => .declare type ⟨name.lexeme, name.span⟩ value (token.span.merge last))
    complete (by omega)

theorem readsStatement_assignment
    (follows : reading.Follows ⟨blocks, body, .statement, last⟩ cursor)
    (found : reading.tokens[cursor.index]? = some token)
    (role : token.role = .identifier)
    (enough : 2 * reading.stop ≤ calls + 2 * cursor.index) :
    reading.ReadsStatement blocks body (assignment reading.bounds reading.tokens calls)
      cursor := by
  have started := follows.next found (.start (.assign role)) rfl rfl
  have expected : some token.role = Wanted.identifier.role? := congrArg some role
  refine .step (from_expect found expected) (Nat.le_succ _) ?_
  refine (runs_enclosed .assign started (by simp only [Cursor.next]; omega)).bind ?_
  rintro value after - - ⟨further, semicolon, ends, ended⟩
  have further : cursor.index + 1 < after.index := further
  have complete := ended _ (.assign (Option.some.inj ends))
  exact runs_complete
    (fun last => .assign ⟨token.lexeme, token.span⟩ value (token.span.merge last))
    complete (by omega)

/-- What calls of some depth do with statements when they are as deep as tokens remain. -/
structure ReadsStatements (reading : Reading) (calls : Nat) : Prop where
  statement :
    ∀ {blocks body last cursor token},
      reading.Follows ⟨blocks, body, .statement, last⟩ cursor →
      reading.tokens[cursor.index]? = some token → token.role ≠ .endOfInput →
      (token.role = .closeBrace → blocks = []) →
      2 * reading.stop + 2 ≤ calls + 2 * cursor.index →
      reading.ReadsStatement blocks body
        (Descent.statement reading.bounds reading.tokens calls) cursor
  conditional :
    ∀ {blocks body last cursor token},
      reading.Follows ⟨blocks, body, .statement, last⟩ cursor →
      reading.tokens[cursor.index]? = some token → token.role = .keyword .conditional →
      2 * reading.stop + 1 ≤ calls + 2 * cursor.index →
      reading.ReadsStatement blocks body
        (Descent.conditional reading.bounds reading.tokens calls) cursor
  loop :
    ∀ {blocks body last cursor token},
      reading.Follows ⟨blocks, body, .statement, last⟩ cursor →
      reading.tokens[cursor.index]? = some token → token.role = .keyword .loop →
      2 * reading.stop + 1 ≤ calls + 2 * cursor.index →
      reading.ReadsStatement blocks body
        (Descent.loop reading.bounds reading.tokens calls) cursor
  block :
    ∀ {blocks body owner last cursor},
      reading.Follows ⟨blocks, body, .openBrace owner, last⟩ cursor →
      2 * reading.stop + 2 ≤ calls + 2 * cursor.index →
      reading.Runs (Descent.block reading.bounds reading.tokens calls) cursor
        fun found next => cursor.index < next.index ∧
          ∃ last, reading.Follows (.afterBlock blocks body owner found last) next
  statements :
    ∀ {blocks before cursor} (inBlock : Bool),
      reading.AtStatement blocks before cursor →
      (inBlock = true ∨ blocks = []) →
      2 * reading.stop + 3 ≤ calls + 2 * cursor.index →
      reading.Runs
        (Descent.statements reading.bounds reading.tokens calls inBlock before) cursor
        fun found next => reading.AtStatement blocks found.reverse next ∧
          (found = [] → before = [] ∧ next = cursor) ∧
            ∃ token, reading.tokens[next.index]? = some token ∧
              (token.role = .endOfInput ∨ inBlock = true ∧ token.role = .closeBrace)

/-- A loop is its condition and its block. -/
theorem ReadsStatements.next_loop
    (inner : ReadsStatements reading calls)
    (follows : reading.Follows ⟨blocks, body, .statement, last⟩ cursor)
    (found : reading.tokens[cursor.index]? = some token)
    (role : token.role = .keyword .loop)
    (enough : 2 * reading.stop + 1 ≤ calls + 1 + 2 * cursor.index) :
    reading.ReadsStatement blocks body
      (Descent.loop reading.bounds reading.tokens (calls + 1)) cursor := by
  have started := follows.next found (.start (.loop role)) rfl rfl
  refine .step (from_advance found (by simp [role])) (Nat.le_succ _) ?_
  refine (runs_enclosed .openParen started (by simp only [Cursor.next]; omega)).bind ?_
  rintro condition next - - ⟨further, closing, closes, ended⟩
  have further : cursor.index + 1 < next.index := further
  have reached := ended _ (.loop (Option.some.inj closes))
  refine (inner.block reached (by omega)).bind ?_
  rintro block after - - ⟨beyond, afterLast, complete⟩
  exact runs_complete
    (fun last => .loop condition block (token.span.merge last)) complete (by omega)

/-- A conditional goes on with a second block when the word for it follows the first. -/
theorem ReadsStatements.next_conditional
    (inner : ReadsStatements reading calls)
    (follows : reading.Follows ⟨blocks, body, .statement, last⟩ cursor)
    (found : reading.tokens[cursor.index]? = some token)
    (role : token.role = .keyword .conditional)
    (enough : 2 * reading.stop + 1 ≤ calls + 1 + 2 * cursor.index) :
    reading.ReadsStatement blocks body
      (Descent.conditional reading.bounds reading.tokens (calls + 1)) cursor := by
  have started := follows.next found (.start (.conditional role)) rfl rfl
  refine .step (from_advance found (by simp [role])) (Nat.le_succ _) ?_
  refine (runs_enclosed .openParen started (by simp only [Cursor.next]; omega)).bind ?_
  rintro condition next - - ⟨further, closing, closes, ended⟩
  have further : cursor.index + 1 < next.index := further
  have reached := ended _ (.conditional (Option.some.inj closes))
  refine (inner.block reached (by omega)).bind ?_
  rintro consequent after - - ⟨beyond, afterLast, first⟩
  obtain ⟨second, secondFound, -⟩ := first.exists_token
  refine .step (from_here secondFound) (Nat.le_refl _) ?_
  split
  case isTrue alternative =>
    have going := first.next secondFound (.alternative alternative) rfl rfl
    refine .step (from_advance secondFound (by simp [alternative])) (Nat.le_succ _) ?_
    refine (inner.block going (by simp only [Cursor.next]; omega)).bind ?_
    rintro alternate final - - ⟨ahead, finalLast, complete⟩
    have ahead : after.index + 1 < final.index := ahead
    exact runs_complete
      (fun last =>
        .ifElse condition consequent alternate (token.span.merge last)) complete (by omega)
  case isFalse other =>
    have complete : reading.Follows
        ⟨blocks, .ifThen condition consequent (token.span.merge afterLast) :: body, .statement,
          afterLast⟩ after :=
      ⟨first.within, first.behind, first.depth, first.operators,
        first.leads.congr secondFound fun rest =>
          readTo_alternate (noAlternative_cons other) _ _ _⟩
    exact runs_complete
      (fun last => .ifThen condition consequent (token.span.merge last)) complete
      (by omega)

theorem openings_afterBlock
    (blocks : List OpenBlock) (body : List Statement) (owner : Owner) (block : Block)
    (last : Span) :
    (State.afterBlock blocks body owner block last).openings.depth = blocks.length ∧
      (State.afterBlock blocks body owner block last).expecting.opened = 0 ∧
        (State.afterBlock blocks body owner block last).last = last := by
  cases owner <;> exact ⟨rfl, rfl, rfl⟩

/-- The end of a block leads to the place after it. -/
theorem Follows.close
    {owner : Owner} {start : Span} {inner : List Statement} {after : Cursor}
    (follows : reading.Follows ⟨⟨owner, start, body⟩ :: blocks, inner, .statement, last⟩ cursor)
    (found : reading.tokens[cursor.index]? = some token)
    (ended : token.role = .endOfInput ∨ token.role = .closeBrace)
    (closed : after = if token.role = .closeBrace then cursor.next else cursor) :
    ∃ last, reading.Follows
      (.afterBlock blocks body owner (.mk inner.reverse (start.merge last)) last)
      { after with depth := after.depth - 1 } := by
  have level : cursor.depth - 1 = blocks.length := by
    rw [follows.depth]
    rfl
  by_cases closes : token.role = .closeBrace
  · obtain ⟨depth, opened, -⟩ := openings_afterBlock blocks body owner
      (.mk inner.reverse (start.merge token.span)) token.span
    rw [closed, if_pos closes]
    exact ⟨token.span, follows.leads.follows follows.within found (.start (.close closes rfl))
      { cursor.next with depth := cursor.next.depth - 1 } rfl (level.trans depth.symm)
      (follows.operators.trans opened.symm)⟩
  · obtain ⟨depth, opened, afterLast⟩ := openings_afterBlock blocks body owner
      (.mk inner.reverse (start.merge last)) last
    have finish : token.role = .endOfInput := ended.resolve_right closes
    rw [closed, if_neg closes]
    exact ⟨last, follows.within, follows.behind.trans (congrArg some afterLast.symm),
      level.trans depth.symm, follows.operators.trans opened.symm,
      follows.leads.congr found fun rest => readTo_unclosed finish rest⟩

/-- At its end a block is closed, and given over the span up to the token before the cursor. -/
theorem runs_closed
    {owner : Owner} {start : Span} {statements : List Statement}
    (follows :
      reading.Follows ⟨⟨owner, start, body⟩ :: blocks, statements.reverse, .statement, last⟩
        cursor)
    (found : reading.tokens[cursor.index]? = some token)
    (ended : token.role = .endOfInput ∨ token.role = .closeBrace) :
    reading.Runs
      (do
        closing reading.tokens
        leave
        return .mk statements (start.merge (← previous reading.tokens)))
      cursor
      fun block next => ∃ last, reading.Follows (.afterBlock blocks body owner block last) next := by
  have closes := from_closing found
  generalize afterBrace :
    (if token.role = .closeBrace then cursor.next else cursor) = after at closes
  have ahead : cursor.index ≤ after.index := by
    rw [← afterBrace]
    split
    · exact Nat.le_succ _
    · exact Nat.le_refl _
  obtain ⟨afterLast, complete⟩ := follows.close found ended afterBrace.symm
  rw [List.reverse_reverse] at complete
  obtain ⟨-, -, lastOf⟩ := openings_afterBlock blocks body owner
    (.mk statements (start.merge afterLast)) afterLast
  have behind := complete.behind
  rw [lastOf] at behind
  exact .step closes ahead (.step (from_modify _ _) (Nat.le_refl _)
    (.step (from_previous behind) (Nat.le_refl _) (.pure complete.within ⟨_, complete⟩)))

/-- A block is read one level deeper, if that is not too deep, up to its brace or the end. -/
theorem ReadsStatements.next_block
    (inner : ReadsStatements reading calls)
    {owner : Owner}
    (follows : reading.Follows ⟨blocks, body, .openBrace owner, last⟩ cursor)
    (enough : 2 * reading.stop + 2 ≤ calls + 1 + 2 * cursor.index) :
    reading.Runs (Descent.block reading.bounds reading.tokens (calls + 1)) cursor
      fun found next => cursor.index < next.index ∧
        ∃ last, reading.Follows (.afterBlock blocks body owner found last) next := by
  have level : cursor.depth = blocks.length := follows.depth
  refine (runs_expect .openBrace cursor follows.within follows.leads
    fun other otherFound otherRole => refuses_single rfl otherRole).bind ?_
  rintro opening next - within ⟨found, role, rfl⟩
  have goesOn := Wanted.openBrace.role_ne_endOfInput role
  have role := Option.some.inj role
  refine runs_enter follows found goesOn (fun deep => .braceTooDeep role (level ▸ deep))
    fun shallow => ?_
  have moved :
      Move reading.bounds ⟨blocks, body, .openBrace owner, last⟩ opening
        ⟨⟨owner, opening.span, body⟩ :: blocks, [], .statement, opening.span⟩ :=
    .openBrace role (level ▸ shallow)
  have opened := follows.leads.follows follows.within found moved
    { cursor.next with depth := cursor.depth + 1 } rfl
    (congrArg (· + 1) follows.depth) follows.operators
  refine (inner.statements true ⟨_, opened⟩ (.inl rfl)
    (by simp only [Cursor.next]; omega)).bind ?_
  rintro statements after forward - ⟨⟨afterLast, reached⟩, -, closing, closingFound, ended⟩
  have forward : cursor.index + 1 ≤ after.index := forward
  refine (runs_closed reached closingFound (ended.imp_right And.right)).imp ?_
  rintro block final beyond complete
  exact ⟨Nat.lt_of_lt_of_le forward beyond, complete⟩

/-- Statements are read up to the end of the input or of their block. -/
theorem ReadsStatements.next_statements
    (inner : ReadsStatements reading calls)
    {before : List Statement} {inBlock : Bool}
    (start : reading.AtStatement blocks before cursor)
    (alone : inBlock = true ∨ blocks = [])
    (enough : 2 * reading.stop + 3 ≤ calls + 1 + 2 * cursor.index) :
    reading.Runs
      (Descent.statements reading.bounds reading.tokens (calls + 1) inBlock before) cursor
      fun found next => reading.AtStatement blocks found.reverse next ∧
        (found = [] → before = [] ∧ next = cursor) ∧
          ∃ token, reading.tokens[next.index]? = some token ∧
            (token.role = .endOfInput ∨ inBlock = true ∧ token.role = .closeBrace) := by
  obtain ⟨last, follows⟩ := id start
  obtain ⟨token, found, -⟩ := follows.exists_token
  rw [Descent.statements]
  refine .step (from_here found) (Nat.le_refl _) ?_
  split
  case isTrue ended =>
    rw [← Token.role_eq_endOfInput_iff] at ended
    refine .pure follows.within
      ⟨?_, fun none => ⟨List.reverse_eq_nil_iff.mp none, rfl⟩, token, found, ended⟩
    rwa [List.reverse_reverse]
  case isFalse other =>
    rw [← Token.role_eq_endOfInput_iff] at other
    obtain ⟨goesOn, notClosed⟩ := not_or.mp other
    have outside : token.role = .closeBrace → blocks = [] :=
      fun closes => alone.resolve_left fun inside => notClosed ⟨inside, closes⟩
    refine (inner.statement follows found goesOn outside (by omega)).bind ?_
    rintro statement next - - ⟨further, reached⟩
    refine (inner.statements inBlock reached alone (by omega)).imp ?_
    rintro statements final - ⟨last, some, ended⟩
    exact ⟨last, fun none => absurd (some none).1 (List.cons_ne_nil _ _), ended⟩

/-- A statement is read by the part of the descent for its first token. -/
theorem ReadsStatements.next_statement
    (inner : ReadsStatements reading calls)
    (follows : reading.Follows ⟨blocks, body, .statement, last⟩ cursor)
    (found : reading.tokens[cursor.index]? = some token)
    (goesOn : token.role ≠ .endOfInput)
    (outside : token.role = .closeBrace → blocks = [])
    (enough : 2 * reading.stop + 2 ≤ calls + 1 + 2 * cursor.index) :
    reading.ReadsStatement blocks body
      (Descent.statement reading.bounds reading.tokens (calls + 1)) cursor := by
  rw [ReadsStatement, Descent.statement]
  refine .step (from_here found) (Nat.le_refl _) ?_
  split
  case h_1 role =>
    exact readsStatement_printing follows found role (by omega)
  case h_2 role | h_3 role | h_4 role =>
    exact readsStatement_declaration follows found role rfl (by omega)
  case h_5 role =>
    exact inner.conditional follows found role (by omega)
  case h_6 role =>
    exact inner.loop follows found role (by omega)
  case h_7 role =>
    exact readsStatement_assignment follows found role (by omega)
  case h_8 =>
    refine .halt (from_refuse found) (Nat.le_refl _) follows.within (follows.leads.stops found ?_)
    refine State.readTo_of_refused goesOn ?_ _ _
    by_cases closes : token.role = .closeBrace
    · obtain rfl := outside closes
      simp only [State.step, State.startStatement, closes]
      rfl
    · simp only [State.step, State.startStatement]

/-- Calls as deep as tokens remain read every statement. -/
theorem readsStatements (reading : Reading) (calls : Nat) : ReadsStatements reading calls := by
  induction calls with
  | zero =>
      refine ⟨fun follows _ _ _ enough => ?_, fun follows _ _ enough => ?_,
        fun follows _ _ enough => ?_, fun follows enough => ?_, fun _ start _ enough => ?_⟩
      · have within := follows.within
        omega
      · have within := follows.within
        omega
      · have within := follows.within
        omega
      · have within := follows.within
        omega
      · obtain ⟨last, follows⟩ := start
        have within := follows.within
        omega
  | succ calls inductionHypothesis =>
      exact ⟨inductionHypothesis.next_statement, inductionHypothesis.next_conditional,
        inductionHypothesis.next_loop, inductionHypothesis.next_block,
        fun _ => inductionHypothesis.next_statements⟩

end Reading

/-- The list of a descent goes on with the first end of the input after the items. -/
theorem exists_heldTokens_eq (tokens : List Token) :
    ∃ after, heldTokens tokens = itemsOf tokens ++ finishOf tokens :: after := by
  cases found : tokens.find? Token.isFinish with
  | some finish =>
      obtain ⟨ends, items, after, rfl, inside⟩ := List.find?_eq_some_iff_append.mp found
      have goesOn : ∀ token ∈ items, token.role ≠ .endOfInput := by
        intro token member
        rw [Ne, Token.role_eq_endOfInput_iff]
        simpa using inside token member
      obtain ⟨sameItems, sameFinish⟩ :=
        itemsOf_append goesOn ((Token.role_eq_endOfInput_iff _).mpr ends) after
      rw [sameItems, sameFinish, heldTokens]
      split
      · exact ⟨after, rfl⟩
      · exact ⟨after ++ [finishAfter _], List.append_assoc _ _ _⟩
  | none =>
      have goesOn := List.find?_eq_none.mp found
      obtain ⟨sameItems, sameFinish⟩ := itemsOf_eq_self fun token member => by
        rw [Ne, Token.role_eq_endOfInput_iff]
        exact goesOn token member
      have lacks : ¬ tokens.getLast?.any Token.isFinish = true := by
        intro ends
        cases last : tokens.getLast? with
        | none =>
            simp [last] at ends
        | some token =>
            exact goesOn token (List.mem_of_getLast? last) (by simpa [last] using ends)
      exact ⟨[], by rw [heldTokens, if_neg lacks, sameItems, sameFinish]⟩

/-- The first end of the input that a descent holds comes after the items. -/
theorem endsAt_heldTokens (tokens : List Token) :
    EndsAt (heldTokens tokens) (itemsOf tokens).length := by
  obtain ⟨after, held⟩ := exists_heldTokens_eq tokens
  rw [held]
  refine ⟨⟨finishOf tokens, by simp, finishOf_role tokens⟩, fun index token before found => ?_⟩
  rw [List.getElem?_append_left before] at found
  exact role_ne_of_mem_itemsOf (List.mem_of_getElem? found)

/-- Lists with the same items and the same first end of the input are parsed alike. -/
theorem parseTokens_congr
    {first second : List Token}
    (items : itemsOf first = itemsOf second)
    (finish : finishOf first = finishOf second)
    (source : Source) :
    parseTokens source first = parseTokens source second := by
  simp only [parseTokens, read, programSpan, items, finish]

theorem parseTokens_heldTokens (source : Source) (tokens : List Token) :
    parseTokens source (heldTokens tokens) = parseTokens source tokens := by
  obtain ⟨after, held⟩ := exists_heldTokens_eq tokens
  obtain ⟨items, finish⟩ :=
    itemsOf_append (fun _ => role_ne_of_mem_itemsOf) (finishOf_role tokens) after
  rw [held]
  exact parseTokens_congr items finish source

/-- The reading of the list that a descent holds. -/
def Reading.ofTokens (tokens : List Token) : Reading where
  bounds := .standard
  tokens := heldTokens tokens
  stop := (itemsOf tokens).length
  ending := finishAfter (heldTokens tokens)
  result := read .standard (heldTokens tokens)
  ends := endsAt_heldTokens tokens

theorem Reading.follows_initial (tokens : List Token) :
    (Reading.ofTokens tokens).Follows State.initial .initial where
  within := Nat.zero_le _
  behind := rfl
  depth := rfl
  operators := rfl
  leads := (read_eq_readTo .standard (heldTokens tokens)).symm

/-- A program goes over the first token of a descent, and up to the last one before its end. -/
theorem programSpan_heldTokens
    {tokens : List Token} {first : Token} {body : List Statement} {last : Span}
    (found : (heldTokens tokens)[0]? = some first)
    (accepted : read .standard (heldTokens tokens) = .ok (body, last))
    (nonempty : body = [] → itemsOf tokens = []) :
    programSpan (heldTokens tokens) last =
      if body.isEmpty then first.span else first.span.merge last := by
  obtain ⟨after, held⟩ := exists_heldTokens_eq tokens
  obtain ⟨items, finish⟩ :=
    itemsOf_append (fun _ => role_ne_of_mem_itemsOf) (finishOf_role tokens) after
  rw [← held] at items finish
  cases known : itemsOf tokens with
  | nil =>
      rw [held, known] at found
      cases found
      rw [read, items, known] at accepted
      cases accepted
      simp only [programSpan, items, known, finish]
      rfl
  | cons token rest =>
      rw [held, known] at found
      cases found
      have some : body ≠ [] := by
        intro none
        rw [nonempty none] at known
        cases known
      simp only [programSpan, items, known, List.isEmpty_iff, some, ↓reduceIte]

/-- What a descent gives is what is parsed. -/
theorem Descent.parse_eq
    {tokens : List Token} {calls : Nat}
    (enough : 2 * tokens.length + 3 ≤ calls)
    (source : Source) :
    (∃ program, (Descent.parse tokens calls).1 = .ok program ∧
        parseTokens source tokens = .ok program) ∨
      ∃ token refusal, (Descent.parse tokens calls).1 = .error (.refused token refusal) ∧
        parseTokens source tokens = .error (refusal.toError source token) := by
  have fewer : (itemsOf tokens).length ≤ tokens.length :=
    (List.takeWhile_prefix _).length_le
  let reading := Reading.ofTokens tokens
  obtain ⟨first, found, -⟩ := (Reading.follows_initial tokens).exists_token
  have runs : reading.Runs (Descent.program .standard (heldTokens tokens) calls) .initial
      fun program _ => parseTokens source (heldTokens tokens) = .ok program := by
    refine .step (Descent.from_here found) (Nat.le_refl _) ?_
    refine ((Reading.readsStatements reading calls).statements false
      ⟨_, Reading.follows_initial tokens⟩ (.inr rfl) ?_).bind ?_
    · simp only [reading, Reading.ofTokens, Cursor.initial]
      omega
    rintro body next - - ⟨⟨last, follows⟩, none, finish, finishFound, ended⟩
    have ends : finish.role = .endOfInput := by
      simpa using ended
    have accepted : read .standard (heldTokens tokens) = .ok (body, last) := by
      have leads := follows.leads
      rw [Reading.Leads, Reading.drop_of_found finishFound, State.readTo_of_finish ends] at leads
      exact leads.symm.trans (by simp [State.readEnd, State.finish, State.finishBlocks])
    have span := programSpan_heldTokens found accepted fun empty => ?_
    · have parsed : parseTokens source (heldTokens tokens) =
          .ok ⟨body, if body.isEmpty then first.span else first.span.merge last⟩ := by
        rw [parseTokens, accepted, ← span]
      split
      case isTrue empty =>
        exact .pure follows.within (by rw [parsed, if_pos empty])
      case isFalse some =>
        exact .step (Descent.from_previous follows.behind) (Nat.le_refl _)
          (.pure follows.within (by rw [parsed, if_neg some]))
    · obtain ⟨-, rfl⟩ := none empty
      have noItem := fun some => (endsAt_heldTokens tokens).before 0 finish some finishFound ends
      exact List.length_eq_zero_iff.mp (Nat.eq_zero_of_not_pos noItem)
  rw [← parseTokens_heldTokens]
  obtain ⟨-, -, outcome⟩ := runs
  rw [Descent.parse]
  split at outcome
  case h_1 program next done =>
    exact .inl ⟨program, congrArg Prod.fst done, outcome⟩
  case h_2 halt next stopped =>
    obtain ⟨token, refusal, rfl, refused⟩ := outcome
    have refused : read .standard (heldTokens tokens) = .error (token, refusal) := refused
    refine .inr ⟨token, refusal, congrArg Prod.fst stopped, ?_⟩
    rw [parseTokens, refused]

/-- The place one column after the last of some tokens. -/
def positionAfter (tokens : List Token) : Position :=
  match tokens.getLast? with
  | some last => ⟨last.span.stop.line, last.span.stop.column + 1⟩
  | none => .first

theorem finishAfter_eq
    {tokens : List Token}
    (within : (positionAfter tokens).column < Position.bound) :
    finishAfter tokens = .finish (positionAfter tokens) := by
  unfold positionAfter at within ⊢
  unfold finishAfter
  cases known : tokens.getLast? with
  | some last =>
      rw [known] at within
      simp only [Nat.mod_eq_of_lt within]
  | none =>
      rfl

end Reader

/--
Parsing is safe for every list of tokens, and stops at the first end of the input.

A descent with a cursor over the list, to which an end of the input is added where
the last token is none, ends after fewer nested calls than twice the tokens and
three, with the result of parsing.  Whatever the number of calls, it looks for no
token outside the list and its cursor moves neither back nor beyond the first end
of the input; and every statement and every expression that it reads moves the
cursor on.  So what comes after the first end of the input does not matter, and a
list without one is parsed as if it had one after its last token.
-/
theorem parseTokens_safe
    (source : Source)
    (tokens : List Token) :
    (∀ calls, 2 * tokens.length + 3 ≤ calls →
      (∃ program, (Reader.Descent.parse tokens calls).1 = .ok program ∧
          Reader.parseTokens source tokens = .ok program) ∨
        ∃ token refusal,
          (Reader.Descent.parse tokens calls).1 = .error (.refused token refusal) ∧
            Reader.parseTokens source tokens = .error (refusal.toError source token)) ∧
      (∃ stop, Reader.EndsAt (Reader.heldTokens tokens) stop ∧
        ∀ calls,
          Reader.Descent.Safe stop
              (Reader.Descent.program .standard (Reader.heldTokens tokens) calls) ∧
            Reader.Descent.Consuming stop
              (Reader.Descent.statement .standard (Reader.heldTokens tokens) calls) ∧
              ∀ precedence, Reader.Descent.Consuming stop
                (Reader.Descent.expression .standard (Reader.heldTokens tokens) calls
                  precedence)) ∧
        (∀ items finish after, tokens = items ++ finish :: after →
          (∀ token ∈ items, token.kind ≠ .endOfInput) → finish.kind = .endOfInput →
            Reader.parseTokens source tokens =
              Reader.parseTokens source (items ++ [finish])) ∧
          ((∀ token ∈ tokens, token.kind ≠ .endOfInput) →
            (Reader.positionAfter tokens).column < Position.bound →
              Reader.parseTokens source tokens =
                Reader.parseTokens source
                  (tokens ++ [.finish (Reader.positionAfter tokens)])) := by
  have roles : ∀ {items : List Token}, (∀ token ∈ items, token.kind ≠ .endOfInput) →
      ∀ token ∈ items, token.role ≠ .endOfInput :=
    fun inside token member role =>
      inside token member (token.role_eq_endOfInput_iff_kind.mp role)
  refine ⟨fun calls enough => Reader.Descent.parse_eq enough source, ⟨_,
    Reader.endsAt_heldTokens tokens, fun calls => ?_⟩, ?_, ?_⟩
  · have ends := Reader.endsAt_heldTokens tokens
    exact ⟨Reader.Descent.safe_program ends calls,
      (Reader.Descent.consumesStatements ends calls).statement,
      (Reader.Descent.consumesExpressions ends calls).expression⟩
  · rintro items finish after rfl inside ends
    have ends : finish.role = .endOfInput := finish.role_eq_endOfInput_iff_kind.mpr ends
    obtain ⟨items, first⟩ := Reader.itemsOf_append (roles inside) ends after
    obtain ⟨cutItems, cutFirst⟩ := Reader.itemsOf_append (roles inside) ends []
    exact Reader.parseTokens_congr (items.trans cutItems.symm) (first.trans cutFirst.symm) source
  · intro inside within
    obtain ⟨items, lacks⟩ := Reader.itemsOf_eq_self (roles inside)
    have added : (Token.finish (Reader.positionAfter tokens)).role = .endOfInput :=
      rfl
    obtain ⟨addedItems, addedFirst⟩ := Reader.itemsOf_of_ends (roles inside) added
    rw [← Reader.finishAfter_eq within] at addedFirst addedItems ⊢
    exact Reader.parseTokens_congr (items.trans addedItems.symm) (lacks.trans addedFirst.symm)
      source

/-- What stands beyond the first end of the input does not matter, and it may be left out. -/
theorem parseTokens_safe_openLoop :
    (Reader.Descent.parse (openLoop ++ openLoop) 43).1 = .ok openLoopProgram ∧
      Reader.parseTokens (.ofText "") (openLoop ++ openLoop) = .ok openLoopProgram ∧
        Reader.parseTokens (.ofText "") openLoop.dropLast = .ok openLoopProgram := by
  obtain ⟨ends, -, cut, -⟩ := parseTokens_safe (.ofText "") (openLoop ++ openLoop)
  obtain ⟨-, -, -, added⟩ := parseTokens_safe (.ofText "") openLoop.dropLast
  have whole : Reader.parseTokens (.ofText "") (openLoop ++ openLoop) = .ok openLoopProgram :=
    (cut openLoop.dropLast (.finish .first) openLoop rfl (by simp [openLoop]) rfl).trans rfl
  refine ⟨?_, whole, (added (by simp [openLoop]) (by decide)).trans rfl⟩
  rcases ends 43 (by decide) with ⟨program, given, parsed⟩ | ⟨token, refusal, -, failed⟩
  · cases whole.symm.trans parsed
    exact given
  · cases whole.symm.trans failed

end Bhasha
