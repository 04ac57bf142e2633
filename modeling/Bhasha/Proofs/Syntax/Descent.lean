import Bhasha.Proofs.Syntax.Cursor

namespace Bhasha.Reader

open Grammar

/-!
# The descent reads what the reader reads

Wherever the cursor of a descent is, the reader is at a place of its own, and what
remains of the list leads it from there to the result of the whole list.
`Reading.Follows` says so: the last token, the nesting and the open operators are
the same for both.  Every part of a descent keeps this up, or it stops at the
token where the reader stops.

The descent joins an operand with the operators before it as soon as it sees that
no tighter operator follows.  The reader leaves it waiting, but reads on in the
same way.
-/

/-- The operators that are open where something is expected. -/
def Expecting.opened : Expecting → Nat
  | operand _ waiting => Waiting.opened waiting
  | operator _ _ _ opened => opened
  | statement | alternate .. | name .. | assign _ | openParen _ | endOfPrint .. | openBrace _
  | tooDeep => 0

/-- What is wanted where only one kind of token may follow. -/
def Expecting.single? : Expecting → Option Wanted
  | name .. => some .identifier
  | assign _ => some .assign
  | openParen _ => some .openParen
  | endOfPrint .. => some .semicolon
  | openBrace _ => some .openBrace
  | statement | alternate .. | operand .. | operator .. | tooDeep => none

/-- A list of tokens with its first end of the input, and the result of reading it. -/
structure Reading where
  bounds : Bounds
  tokens : List Token
  stop : Nat
  ending : Token
  result : Except (Token × Refusal) (List Statement × Span)
  ends : EndsAt tokens stop

namespace Reading

variable {reading : Reading}

/-- The tokens from an index on lead from a place to the result. -/
def Leads (reading : Reading) (state : State) (index : Nat) : Prop :=
  state.readTo reading.bounds reading.ending (reading.tokens.drop index) = reading.result

/-- The cursor of a descent is where a place is that leads to the result. -/
structure Follows (reading : Reading) (state : State) (cursor : Cursor) : Prop where
  within : cursor.index ≤ reading.stop
  behind : spanBefore? reading.tokens cursor.index = some state.last
  depth : cursor.depth = state.openings.depth
  operators : cursor.operators = state.expecting.opened
  leads : reading.Leads state cursor.index

/-- A descent stops at the token that is refused in the result, for the same reason. -/
def Stops (reading : Reading) (halt : Halt) : Prop :=
  ∃ token refusal, halt = .refused token refusal ∧ reading.result = .error (token, refusal)

/-- A part of a descent moves the cursor on to something good, or stops where the result does. -/
def Runs
    (reading : Reading)
    (run : Descent α)
    (cursor : Cursor)
    (good : α → Cursor → Prop) : Prop :=
  Descent.Runs reading.stop run cursor good reading.Stops

/-- The tokens from an index on are the one there and those after it. -/
theorem drop_of_found
    {tokens : List Token} {index : Nat} {token : Token}
    (found : tokens[index]? = some token) :
    tokens.drop index = token :: tokens.drop (index + 1) := by
  obtain ⟨inside, rfl⟩ := List.getElem?_eq_some_iff.mp found
  exact List.drop_eq_getElem_cons inside

namespace Leads

variable {state next : State} {index : Nat} {token : Token}

theorem move
    (leads : reading.Leads state index)
    (found : reading.tokens[index]? = some token)
    (moved : Move reading.bounds state token next) :
    reading.Leads next (index + 1) := by
  unfold Leads at leads ⊢
  rw [drop_of_found found, moved.readTo] at leads
  exact leads

/-- A token that is refused where reading is ends the result. -/
theorem stops
    {refusal : Refusal}
    (leads : reading.Leads state index)
    (found : reading.tokens[index]? = some token)
    (refused : state.readTo reading.bounds reading.ending
      (token :: reading.tokens.drop (index + 1)) = .error (token, refusal)) :
    reading.Stops (.refused token refusal) := by
  unfold Leads at leads
  rw [drop_of_found found, refused] at leads
  exact ⟨token, refusal, rfl, leads.symm⟩

/-- A place that reads on in the same way leads to the same result. -/
theorem congr
    (leads : reading.Leads state index)
    (found : reading.tokens[index]? = some token)
    (same : ∀ rest, state.readTo reading.bounds reading.ending (token :: rest) =
      next.readTo reading.bounds reading.ending (token :: rest)) :
    reading.Leads next index := by
  unfold Leads at leads ⊢
  rw [drop_of_found found] at leads ⊢
  rw [← same, leads]

end Leads

/-- A descent that follows a place finds the token there. -/
theorem Follows.exists_token
    {state : State} {cursor : Cursor}
    (follows : reading.Follows state cursor) :
    ∃ token, reading.tokens[cursor.index]? = some token ∧
      (token.role = .endOfInput ↔ cursor.index = reading.stop) :=
  reading.ends.exists_token follows.within

end Reading

/-! The reader after an operand -/

section

variable
  {bounds : Bounds} {ending token : Token} {blocks : List OpenBlock} {body : List Statement}
  {heading : Heading} {waiting other : List Waiting} {value whole : Expression}
  {opened count : Nat} {last : Span}

/-- Operands that are joined alike before a token are read on alike. -/
theorem readTo_operator_congr
    (parens : Waiting.parens waiting = Waiting.parens other)
    (tight : ∀ operator, token.role = .binary operator →
      settle operator.precedence waiting value opened =
        settle operator.precedence other whole count)
    (settled : (settle 0 waiting value opened).1 = (settle 0 other whole count).1)
    (joined : (settle 0 waiting value opened).2.1 = (settle 0 other whole count).2.1)
    (rest : List Token) :
    State.readTo bounds ending ⟨blocks, body, .operator heading waiting value opened, last⟩
        (token :: rest) =
      State.readTo bounds ending ⟨blocks, body, .operator heading other whole count, last⟩
        (token :: rest) := by
  have stepped :
      State.step bounds ⟨blocks, body, .operator heading waiting value opened, last⟩ token =
        State.step bounds ⟨blocks, body, .operator heading other whole count, last⟩ token := by
    simp only [State.step, State.readOperator]
    split
    case h_1 operator role =>
      rw [tight operator role]
      rfl
    case h_2 =>
      rcases first : settle 0 waiting value opened with ⟨left, inner, before⟩
      rcases second : settle 0 other whole count with ⟨otherLeft, otherInner, otherBefore⟩
      rw [first, second] at settled joined
      cases settled
      cases joined
      rcases left with _ | ⟨⟨_, _, _⟩ | _, _⟩ <;> rfl
  have ended :
      State.readEnd ⟨blocks, body, .operator heading waiting value opened, last⟩ token =
        State.readEnd ⟨blocks, body, .operator heading other whole count, last⟩ token := by
    simp only [State.readEnd, State.finish, Expecting.refusal, parens]
  simp only [State.readTo, stepped, ended]

/-- An operand is joined before a token that is no tighter operator. -/
theorem readTo_join
    {left : Expression} {operator : BinaryOperator}
    (loose : tightOperator? (operator.precedence + 1) token = none)
    (rest : List Token) :
    State.readTo bounds ending
        ⟨blocks, body, .operator heading (.operand left operator count :: waiting) value opened,
          last⟩ (token :: rest) =
      State.readTo bounds ending
        ⟨blocks, body, .operator heading waiting (.join operator left value) count, last⟩
        (token :: rest) := by
  refine readTo_operator_congr (Waiting.parens_operand _ _ _ _) ?_ ?_ ?_ rest
  · intro next role
    have below : next.precedence ≤ operator.precedence := by
      simpa [tightOperator?, role, Nat.lt_succ_iff] using loose
    rw [settle, if_pos below]
  · rw [settle, if_pos (Nat.zero_le _)]
  · rw [settle, if_pos (Nat.zero_le _)]

/-- The least precedence of an operator that is not joined with those that wait. -/
def Waiting.next : List Waiting → Nat
  | .operand _ operator _ :: _ => operator.precedence + 1
  | [] | .paren _ :: _ => 1

theorem below_next
    {operator : BinaryOperator}
    (order : Waiting.next waiting ≤ operator.precedence) :
    Waiting.Below operator.precedence waiting := by
  rcases waiting with _ | ⟨⟨left, before, count⟩ | count, rest⟩
  · trivial
  · exact order
  · trivial

theorem one_le_precedence (operator : BinaryOperator) : 1 ≤ operator.precedence := by
  cases operator <;> decide

/-- How many operators an operand has open does not matter before a token that joins it. -/
theorem readTo_opened
    (loose : tightOperator? (Waiting.next waiting) token = none)
    (rest : List Token) :
    State.readTo bounds ending ⟨blocks, body, .operator heading waiting value opened, last⟩
        (token :: rest) =
      State.readTo bounds ending ⟨blocks, body, .operator heading waiting value count, last⟩
        (token :: rest) := by
  rcases waiting with _ | ⟨⟨left, before, inner⟩ | inner, outer⟩
  · refine readTo_operator_congr ?_ (fun operator role => ?_) ?_ ?_ rest
    · rfl
    · simp [tightOperator?, role, Waiting.next, one_le_precedence] at loose
    · rfl
    · rfl
  · rw [readTo_join loose, readTo_join loose]
  · refine readTo_operator_congr ?_ (fun operator role => ?_) ?_ ?_ rest
    · rfl
    · simp [tightOperator?, role, Waiting.next, one_le_precedence] at loose
    · rfl
    · rfl

/-- Beyond the nesting bound the next token is refused. -/
theorem readTo_tooDeep (rest : List Token) :
    State.readTo bounds ending ⟨blocks, body, .tooDeep, last⟩ (token :: rest) =
      .error (token, .nesting) := by
  unfold State.readTo
  split <;> rfl

/-- After an operand only operators and the token that is wanted are used. -/
theorem refuses_operator
    {state : State} {wanted : Wanted}
    (expecting : state.expecting = .operator heading waiting value opened)
    (refusal : state.expecting.refusal = .wanted wanted)
    (noOperator : ∀ operator, token.role ≠ .binary operator)
    (other : some token.role ≠ wanted.role?) :
    state.Refuses token wanted := by
  rcases state with ⟨blocks, body, _, last⟩
  cases expecting
  by_cases finish : token.role = .endOfInput
  · exact .ofFinish finish (by rw [← refusal]; rfl)
  · suffices stepped : State.step .standard
        ⟨blocks, body, .operator heading waiting value opened, last⟩ token =
          .error (.wanted wanted) from
      .ofStep finish stepped
    simp only [Expecting.refusal, Refusal.wanted.injEq] at refusal
    rcases settle_zero_shape waiting value opened with
      ⟨whole, before, joined⟩ | ⟨before, settled, inner, innermost, joined⟩
    · rw [if_pos (parens_eq_zero_of_settle joined)] at refusal
      subst refusal
      simp only [State.step, State.readOperator, joined, State.endExpression]
      split
      case h_6 =>
        rfl
      all_goals
        rename_i role
        simp [Heading.wantedAfter, Wanted.role?, role] at other
    · rw [if_neg (parens_ne_zero_of_settle joined)] at refusal
      subst refusal
      have closed : token.role ≠ .closeParen := fun role => other (by rw [role]; rfl)
      simp only [State.step, State.readOperator, joined, closed, ↓reduceIte]

/-- Where an operand must start, every other token is refused. -/
theorem refuses_operand
    (noOperand : operand? token = none)
    (other : token.role ≠ .openParen) :
    State.Refuses ⟨blocks, body, .operand heading waiting, last⟩ token .expression := by
  by_cases finish : token.role = .endOfInput
  · exact .ofFinish finish rfl
  · suffices stepped : State.step .standard ⟨blocks, body, .operand heading waiting, last⟩ token =
        .error (.wanted .expression) from
      .ofStep finish stepped
    unfold operand? at noOperand
    split at noOperand
    case h_4 =>
      simp only [State.step, State.readOperand]
    all_goals cases noOperand

/-- Where only one kind of token may follow, every other token is refused. -/
theorem refuses_single
    {state : State} {wanted : Wanted}
    (single : state.expecting.single? = some wanted)
    (other : some token.role ≠ wanted.role?) :
    state.Refuses token wanted := by
  rcases state with ⟨blocks, body, expecting, last⟩
  by_cases finish : token.role = .endOfInput
  · refine .ofFinish finish ?_
    cases expecting with
    | statement | alternate | operand | operator | tooDeep =>
        cases single
    | name | assign | openParen | endOfPrint | openBrace =>
        cases single
        rfl
  · suffices stepped : State.step .standard ⟨blocks, body, expecting, last⟩ token =
        .error (.wanted wanted) from
      .ofStep finish stepped
    cases expecting with
    | statement | alternate | operand | operator | tooDeep =>
        cases single
    | name | assign | openParen | endOfPrint | openBrace =>
        cases single
        rw [Wanted.role?, ne_eq, Option.some.injEq] at other
        simp only [State.step]
        rfl

end

namespace Reading

open Descent

variable {reading : Reading}

/-- A move of the reader is followed by a cursor that is one token on. -/
theorem Leads.follows
    {state next : State} {cursor : Cursor} {token : Token}
    (leads : reading.Leads state cursor.index)
    (within : cursor.index ≤ reading.stop)
    (found : reading.tokens[cursor.index]? = some token)
    (moved : Move reading.bounds state token next)
    (after : Cursor)
    (index : after.index = cursor.index + 1)
    (depth : after.depth = next.openings.depth)
    (operators : after.operators = next.expecting.opened) :
    reading.Follows next after where
  within := by
    rw [index]
    exact reading.ends.succ_le within found moved.role_ne_endOfInput
  behind := by
    rw [moved.last_eq, index, spanBefore?, found, Option.map_some]
  depth := depth
  operators := operators
  leads := by
    rw [index]
    exact leads.move found moved

/-- A move that opens and closes nothing is followed by the cursor after its token. -/
theorem Follows.next
    {state next : State} {cursor : Cursor} {token : Token}
    (follows : reading.Follows state cursor)
    (found : reading.tokens[cursor.index]? = some token)
    (moved : Move reading.bounds state token next)
    (depth : next.openings.depth = state.openings.depth)
    (opened : next.expecting.opened = state.expecting.opened) :
    reading.Follows next cursor.next :=
  follows.leads.follows follows.within found moved cursor.next rfl
    (follows.depth.trans depth.symm) (follows.operators.trans opened.symm)

/-- What is wanted is moved beyond, and every other token is where the result stops. -/
theorem runs_expect
    {state : State}
    (wanted : Wanted)
    (cursor : Cursor)
    (within : cursor.index ≤ reading.stop)
    (leads : reading.Leads state cursor.index)
    (refuses : ∀ token, reading.tokens[cursor.index]? = some token →
      some token.role ≠ wanted.role? → state.Refuses token wanted) :
    reading.Runs (expect reading.tokens wanted) cursor fun token next =>
      reading.tokens[cursor.index]? = some token ∧ some token.role = wanted.role? ∧
        next = cursor.next := by
  obtain ⟨token, found, -⟩ := reading.ends.exists_token within
  by_cases expected : some token.role = wanted.role?
  · exact .done (from_expect found expected) (Nat.le_succ _)
      (reading.ends.succ_le within found (wanted.role_ne_endOfInput expected))
      ⟨found, expected, rfl⟩
  · exact .halt (from_expect_other found expected) (Nat.le_refl _) within
      (leads.stops found (refuses token found expected _ _ _))

/-- What follows one more opening runs a level deeper, or the next token is too deep. -/
theorem runs_enter
    {state : State} {cursor : Cursor} {token : Token} {blocks : List OpenBlock}
    {body : List Statement} {following : Descent α} {good : α → Cursor → Prop}
    (follows : reading.Follows state cursor)
    (found : reading.tokens[cursor.index]? = some token)
    (goesOn : token.role ≠ .endOfInput)
    (beyond : reading.bounds.nesting ≤ cursor.depth →
      Move reading.bounds state token ⟨blocks, body, .tooDeep, token.span⟩)
    (inside : cursor.depth < reading.bounds.nesting →
      reading.Runs following { cursor.next with depth := cursor.depth + 1 } good) :
    reading.Runs (do enter reading.bounds reading.tokens; following) cursor.next good := by
  have within : cursor.next.index ≤ reading.stop :=
    reading.ends.succ_le follows.within found goesOn
  obtain ⟨second, secondFound, -⟩ := reading.ends.exists_token within
  have enters := from_enter reading.bounds secondFound
  by_cases deep : reading.bounds.nesting < cursor.depth + 1
  · have moved := beyond (Nat.le_of_lt_succ deep)
    rw [Cursor.next, if_pos deep] at enters
    exact .halt_first enters (Nat.le_refl _) within
      ((follows.leads.move found moved).stops secondFound (readTo_tooDeep _))
  · rw [Cursor.next, if_neg deep] at enters
    exact .step enters (Nat.le_refl _) (inside (Nat.not_le.mp fun tooMany =>
      deep (Nat.lt_succ_of_le tooMany)))

/-- The token at an index is no operator that binds as tightly as a precedence. -/
def Loose (reading : Reading) (precedence index : Nat) : Prop :=
  ∀ token, reading.tokens[index]? = some token → tightOperator? precedence token = none

/-- Without an operator that binds loosely there is none. -/
theorem Loose.role_ne
    {index : Nat} {token : Token}
    (loose : reading.Loose 1 index)
    (found : reading.tokens[index]? = some token)
    (operator : BinaryOperator) :
    token.role ≠ .binary operator := by
  intro role
  have none := loose token found
  simp [tightOperator?, role, one_le_precedence] at none

section

variable {blocks : List OpenBlock} {body : List Statement} {heading : Heading}

/-- The cursor is after an operand that is complete. -/
def AtOperator
    (reading : Reading)
    (blocks : List OpenBlock)
    (body : List Statement)
    (heading : Heading)
    (waiting : List Waiting)
    (value : Expression)
    (opened : Nat)
    (cursor : Cursor) : Prop :=
  ∃ last, reading.Follows ⟨blocks, body, .operator heading waiting value opened, last⟩ cursor

/-- What calls of some depth do with expressions when they are as deep as tokens remain. -/
structure ReadsExpressions (reading : Reading) (calls : Nat) : Prop where
  expression :
    ∀ {blocks body heading waiting last cursor},
      reading.Follows ⟨blocks, body, .operand heading waiting, last⟩ cursor →
      2 * reading.stop + 2 ≤ calls + 2 * cursor.index →
      reading.Runs
        (Descent.expression reading.bounds reading.tokens calls (Waiting.next waiting)) cursor
        fun value next => cursor.index < next.index ∧
          reading.Loose (Waiting.next waiting) next.index ∧
            reading.AtOperator blocks body heading waiting value (Waiting.opened waiting) next
  chain :
    ∀ {blocks body heading waiting left cursor} (count : Nat),
      reading.AtOperator blocks body heading waiting left (Waiting.opened waiting + count) cursor →
      2 * reading.stop + 1 ≤ calls + 2 * cursor.index →
      reading.Runs
        (Descent.chain reading.bounds reading.tokens calls (Waiting.next waiting) left count)
        cursor
        fun value next => reading.Loose (Waiting.next waiting) next.index ∧
          reading.AtOperator blocks body heading waiting value (Waiting.opened waiting) next
  primary :
    ∀ {blocks body heading waiting last cursor},
      reading.Follows ⟨blocks, body, .operand heading waiting, last⟩ cursor →
      2 * reading.stop + 1 ≤ calls + 2 * cursor.index →
      reading.Runs (Descent.primary reading.bounds reading.tokens calls) cursor
        fun value next => cursor.index < next.index ∧
          reading.AtOperator blocks body heading waiting value (Waiting.opened waiting) next

/-- An operand is joined with the operator before it when no tighter one follows. -/
theorem AtOperator.join
    {waiting : List Waiting} {left right : Expression} {operator : BinaryOperator} {count : Nat}
    {cursor : Cursor}
    (after :
      reading.AtOperator blocks body heading (.operand left operator count :: waiting) right count
        cursor)
    (loose : reading.Loose (operator.precedence + 1) cursor.index) :
    reading.AtOperator blocks body heading waiting (.join operator left right) count cursor := by
  obtain ⟨last, follows⟩ := after
  obtain ⟨token, found, -⟩ := follows.exists_token
  refine ⟨last, follows.within, follows.behind, ?_, follows.operators,
    follows.leads.congr found fun rest => readTo_join (loose token found) rest⟩
  rw [follows.depth]
  simp only [State.openings, Openings.depth, Expecting.groupings, Waiting.parens_operand]

/-- The operators of a chain are closed when no operator of it follows. -/
theorem AtOperator.close
    {waiting : List Waiting} {value : Expression} {count : Nat} {cursor : Cursor}
    (after :
      reading.AtOperator blocks body heading waiting value (Waiting.opened waiting + count) cursor)
    (loose : reading.Loose (Waiting.next waiting) cursor.index) :
    reading.AtOperator blocks body heading waiting value (Waiting.opened waiting)
      { cursor with operators := cursor.operators - count } := by
  obtain ⟨last, follows⟩ := after
  obtain ⟨token, found, -⟩ := follows.exists_token
  refine ⟨last, follows.within, follows.behind, follows.depth, ?_,
    follows.leads.congr found fun rest => readTo_opened (loose token found) rest⟩
  dsimp only
  rw [follows.operators]
  exact Nat.add_sub_cancel _ _

/-- An expression is an operand and the chain after it. -/
theorem ReadsExpressions.next_expression
    {calls : Nat}
    (inner : ReadsExpressions reading calls)
    {waiting : List Waiting} {last : Span} {cursor : Cursor}
    (follows : reading.Follows ⟨blocks, body, .operand heading waiting, last⟩ cursor)
    (enough : 2 * reading.stop + 2 ≤ calls + 1 + 2 * cursor.index) :
    reading.Runs
      (Descent.expression reading.bounds reading.tokens (calls + 1) (Waiting.next waiting)) cursor
      fun value next => cursor.index < next.index ∧
        reading.Loose (Waiting.next waiting) next.index ∧
          reading.AtOperator blocks body heading waiting value (Waiting.opened waiting) next := by
  refine (inner.primary follows (by omega)).bind ?_
  rintro left next - - ⟨further, after⟩
  exact (inner.chain 0 after (by omega)).imp fun value last forward reached =>
    ⟨Nat.lt_of_lt_of_le further forward, reached⟩

/-- A chain takes one more operator that binds tightly enough, or it ends. -/
theorem ReadsExpressions.next_chain
    {calls : Nat}
    (inner : ReadsExpressions reading calls)
    {waiting : List Waiting} {left : Expression} {count : Nat} {cursor : Cursor}
    (after :
      reading.AtOperator blocks body heading waiting left (Waiting.opened waiting + count) cursor)
    (enough : 2 * reading.stop + 1 ≤ calls + 1 + 2 * cursor.index) :
    reading.Runs
      (Descent.chain reading.bounds reading.tokens (calls + 1) (Waiting.next waiting) left count)
      cursor
      fun value next => reading.Loose (Waiting.next waiting) next.index ∧
        reading.AtOperator blocks body heading waiting value (Waiting.opened waiting) next := by
  obtain ⟨last, follows⟩ := id after
  obtain ⟨token, found, -⟩ := follows.exists_token
  have many : cursor.operators = Waiting.opened waiting + count := follows.operators
  rw [Descent.chain]
  refine .step (from_here found) (Nat.le_refl _) ?_
  split
  case h_1 operator tight =>
    obtain ⟨role, order⟩ := tightOperator?_eq_some tight
    have settled : settle operator.precedence waiting left (Waiting.opened waiting + count) =
        (waiting, left, Waiting.opened waiting + count) :=
      settle_of_below (below_next order) left _
    have opens := from_openOperator reading.bounds found
    by_cases beyond : reading.bounds.operators < cursor.operators + 1
    · rw [if_pos beyond] at opens
      refine .halt_first opens (Nat.le_refl _) follows.within (follows.leads.stops found ?_)
      refine State.readTo_of_refused (by simp [role]) ?_ _ _
      have full : ¬ Waiting.opened waiting + count < reading.bounds.operators := by omega
      simp only [State.step, State.readOperator, role, settled, full, ↓reduceIte]
    · rw [if_neg beyond] at opens
      have moved :
          Move reading.bounds
            ⟨blocks, body, .operator heading waiting left (Waiting.opened waiting + count), last⟩
            token
            ⟨blocks, body,
              .operand heading
                (.operand left operator (Waiting.opened waiting + count + 1) :: waiting),
              token.span⟩ :=
        .operator role settled (by omega)
      have goesOn := moved.role_ne_endOfInput
      refine .step opens (Nat.le_refl _) (.step (from_advance found goesOn) (Nat.le_succ _) ?_)
      have following := follows.leads.follows follows.within found moved
        (Cursor.next { cursor with operators := cursor.operators + 1 }) rfl
        (by
          rw [Cursor.next, follows.depth]
          simp only [State.openings, Openings.depth, Expecting.groupings, Waiting.parens_operand])
        (congrArg (· + 1) many)
      refine (inner.expression following (by simp only [Cursor.next]; omega)).bind ?_
      rintro right next - - ⟨further, loose, joined⟩
      have further : cursor.index + 1 < next.index := further
      exact inner.chain (count + 1) (joined.join loose) (by omega)
  case h_2 none =>
    have loose : reading.Loose (Waiting.next waiting) cursor.index := by
      intro other otherFound
      cases found.symm.trans otherFound
      exact none
    exact .step (from_modify _ _) (Nat.le_refl _) (.pure follows.within ⟨loose, after.close loose⟩)

/-- An expression in parentheses is read one level deeper, if that is not too deep. -/
theorem ReadsExpressions.parenthesis
    {calls : Nat}
    (inner : ReadsExpressions reading calls)
    {waiting : List Waiting} {last : Span} {cursor : Cursor} {token : Token}
    (follows : reading.Follows ⟨blocks, body, .operand heading waiting, last⟩ cursor)
    (found : reading.tokens[cursor.index]? = some token)
    (role : token.role = .openParen)
    (enough : 2 * reading.stop + 1 ≤ calls + 1 + 2 * cursor.index) :
    reading.Runs
      (do
        enter reading.bounds reading.tokens
        let value ← Descent.expression reading.bounds reading.tokens calls 1
        leave
        let _ ← expect reading.tokens .closeParen
        return value)
      cursor.next
      fun value next => cursor.index < next.index ∧
        reading.AtOperator blocks body heading waiting value (Waiting.opened waiting) next := by
  have level : cursor.depth = blocks.length + Waiting.parens waiting := follows.depth
  refine runs_enter follows found (by simp [role])
    (fun deep => .parenTooDeep role (level ▸ deep)) fun shallow => ?_
  have moved :
      Move reading.bounds ⟨blocks, body, .operand heading waiting, last⟩ token
        ⟨blocks, body, .operand heading (.paren (Waiting.opened waiting) :: waiting),
          token.span⟩ :=
    .paren role (level ▸ shallow)
  have following := follows.leads.follows follows.within found moved
    { cursor.next with depth := cursor.depth + 1 } rfl
    (by
      simp only [State.openings, Openings.depth, Expecting.groupings, Waiting.parens_paren]
      omega)
    follows.operators
  refine (inner.expression following (by simp only [Cursor.next]; omega)).bind ?_
  rintro value next - inside ⟨further, loose, innerLast, reached⟩
  have further : cursor.index + 1 < next.index := further
  refine .step (from_modify _ _) (Nat.le_refl _) ?_
  refine (runs_expect .closeParen { next with depth := next.depth - 1 } reached.within
    reached.leads fun other otherFound otherRole =>
      refuses_operator rfl (by simp [Expecting.refusal, Waiting.parens_paren])
        (loose.role_ne otherFound) otherRole).bind ?_
  rintro closing after - - ⟨closingFound, closes, rfl⟩
  have closed :
      Move reading.bounds
        ⟨blocks, body,
          .operator heading (.paren (Waiting.opened waiting) :: waiting) value
            (Waiting.opened waiting),
          innerLast⟩
        closing
        ⟨blocks, body, .operator heading waiting value (Waiting.opened waiting),
          closing.span⟩ :=
    .closeParen (Option.some.inj closes) rfl
  have outer := reached.leads.follows reached.within closingFound closed
    (Cursor.next { next with depth := next.depth - 1 }) rfl
    (by
      have nested : next.depth = blocks.length + (Waiting.parens waiting + 1) := by
        rw [reached.depth, ← Waiting.parens_paren (Waiting.opened waiting)]
        rfl
      simp only [Cursor.next, State.openings, Openings.depth, Expecting.groupings]
      omega)
    reached.operators
  exact .pure outer.within ⟨by simp only [Cursor.next]; omega, _, outer⟩

/-- An operand is a token of its own or an expression in parentheses. -/
theorem ReadsExpressions.next_primary
    {calls : Nat}
    (inner : ReadsExpressions reading calls)
    {waiting : List Waiting} {last : Span} {cursor : Cursor}
    (follows : reading.Follows ⟨blocks, body, .operand heading waiting, last⟩ cursor)
    (enough : 2 * reading.stop + 1 ≤ calls + 1 + 2 * cursor.index) :
    reading.Runs (Descent.primary reading.bounds reading.tokens (calls + 1)) cursor
      fun value next => cursor.index < next.index ∧
        reading.AtOperator blocks body heading waiting value (Waiting.opened waiting) next := by
  obtain ⟨token, found, -⟩ := follows.exists_token
  rw [Descent.primary]
  refine .step (from_here found) (Nat.le_refl _) ?_
  split
  case h_1 value operand =>
    have moved :
        Move reading.bounds ⟨blocks, body, .operand heading waiting, last⟩ token
          ⟨blocks, body, .operator heading waiting value (Waiting.opened waiting), token.span⟩ :=
      .operand operand
    have following := follows.next found moved rfl rfl
    exact .step (from_advance found moved.role_ne_endOfInput) (Nat.le_succ _)
      (.pure following.within ⟨Nat.lt_succ_self _, _, following⟩)
  case h_2 noOperand =>
    split
    case isTrue role =>
      exact .step (from_advance found (by simp [role])) (Nat.le_succ _)
        (inner.parenthesis follows found role enough)
    case isFalse other =>
      refine .halt (from_refuse found) (Nat.le_refl _) follows.within
        (follows.leads.stops found (refuses_operand noOperand other _ _ _))

/-- Calls as deep as tokens remain read every expression. -/
theorem readsExpressions (reading : Reading) (calls : Nat) : ReadsExpressions reading calls := by
  induction calls with
  | zero =>
      refine ⟨fun follows enough => ?_, fun _ after enough => ?_, fun follows enough => ?_⟩
      · have within := follows.within
        omega
      · obtain ⟨last, follows⟩ := after
        have within := follows.within
        omega
      · have within := follows.within
        omega
  | succ calls inductionHypothesis =>
      exact ⟨fun follows enough => inductionHypothesis.next_expression follows enough,
        fun _ after enough => inductionHypothesis.next_chain after enough,
        fun follows enough => inductionHypothesis.next_primary follows enough⟩

end

end Reading

end Bhasha.Reader
