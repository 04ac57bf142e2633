import Bhasha.Proofs.Syntax.Cursor

namespace Bhasha.Reader.Descent

/-!
# A descent is safe from every place

Wherever the cursor is up to the first end of the input, a part of a descent looks
for no token outside the list, and moves the cursor neither back nor beyond that
end.  Parts that are put together keep this, and so does every part with the parts
that it calls; and a statement or an expression moves the cursor on, unless the
descent stops in it.
-/

section

variable {bounds : Bounds} {tokens : List Token} {stop : Nat}

/-- A part of a descent looks for no token outside the list, nor moves beyond the end or back. -/
def Safe (stop : Nat) (run : Descent α) : Prop :=
  ∀ cursor : Cursor, cursor.index ≤ stop →
    Runs stop run cursor (fun _ _ => True) (· ≠ .outside)

/-- A part of a descent is safe and moves beyond at least one token, unless it stops. -/
def Consuming (stop : Nat) (run : Descent α) : Prop :=
  ∀ cursor : Cursor, cursor.index ≤ stop →
    Runs stop run cursor (fun _ next => cursor.index < next.index) (· ≠ .outside)

theorem Consuming.safe
    {run : Descent α}
    (consuming : Consuming stop run) :
    Safe stop run :=
  fun cursor within => (consuming cursor within).imp fun _ _ _ _ => trivial

theorem Safe.bind
    {first : Descent α} {following : α → Descent β}
    (safe : Safe stop first)
    (rest : ∀ value, Safe stop (following value)) :
    Safe stop (first >>= following) :=
  fun cursor within => (safe cursor within).bind fun value next _ inside _ =>
    rest value next inside

/-- What follows a part that moves on keeps that it does. -/
theorem Consuming.bind
    {first : Descent α} {following : α → Descent β}
    (consuming : Consuming stop first)
    (rest : ∀ value, Safe stop (following value)) :
    Consuming stop (first >>= following) :=
  fun cursor within => (consuming cursor within).bind fun value next _ inside further =>
    (rest value next inside).imp fun _ _ forward _ => Nat.lt_of_lt_of_le further forward

/-- A part that moves on does so after what comes before it. -/
theorem Safe.bind_consuming
    {first : Descent α} {following : α → Descent β}
    (safe : Safe stop first)
    (rest : ∀ value, Consuming stop (following value)) :
    Consuming stop (first >>= following) :=
  fun cursor within => (safe cursor within).bind fun value next forward inside _ =>
    (rest value next inside).imp fun _ _ _ further => Nat.lt_of_le_of_lt forward further

theorem safe_pure (value : α) : Safe stop (pure value : Descent α) :=
  fun _ within => .pure within trivial

theorem consuming_exhausted : Consuming stop (throw .exhausted : Descent α) :=
  fun _ within => .throw within nofun

theorem safe_modify
    {change : Cursor → Cursor}
    (same : ∀ cursor, (change cursor).index = cursor.index) :
    Safe stop (modify change : Descent Unit) :=
  fun cursor within =>
    ⟨Nat.le_of_eq (same cursor).symm, Nat.le_trans (Nat.le_of_eq (same cursor)) within, trivial⟩

theorem safe_leave : Safe stop leave :=
  safe_modify fun _ => rfl

theorem safe_closeOperators (count : Nat) : Safe stop (closeOperators count) :=
  safe_modify fun _ => rfl

variable (ends : EndsAt tokens stop)

include ends

theorem safe_here : Safe stop (here tokens) := by
  intro cursor within
  obtain ⟨token, found, -⟩ := ends.exists_token within
  exact .done (from_here found) (Nat.le_refl _) within trivial

theorem consuming_refuse (refusal : Refusal) :
    Consuming stop (refuse tokens refusal : Descent α) :=
  (safe_here ends).bind_consuming fun _ => fun _ within => .throw within nofun

theorem safe_advance : Safe stop (advance tokens) := by
  intro cursor within
  obtain ⟨token, found, -⟩ := ends.exists_token within
  by_cases finish : token.role = .endOfInput
  · have stays : (advance tokens).from cursor = (.ok token, cursor) := by
      rw [Token.role_eq_endOfInput_iff] at finish
      simp only [advance, from_bind, from_here found, if_pos finish, from_pure]
    exact .done stays (Nat.le_refl _) within trivial
  · exact .done (from_advance found finish) (Nat.le_succ _) (ends.succ_le within found finish)
      trivial

theorem consuming_expect (wanted : Wanted) : Consuming stop (expect tokens wanted) := by
  intro cursor within
  obtain ⟨token, found, -⟩ := ends.exists_token within
  by_cases expected : some token.role = wanted.role?
  · exact .done (from_expect found expected) (Nat.le_succ _)
      (ends.succ_le within found (wanted.role_ne_endOfInput expected)) (Nat.lt_succ_self _)
  · exact .halt (from_expect_other found expected) (Nat.le_refl _) within nofun

theorem safe_enter : Safe stop (enter bounds tokens) := by
  intro cursor within
  obtain ⟨token, found, -⟩ := ends.exists_token within
  have result := from_enter bounds found
  split at result
  · exact .halt result (Nat.le_refl _) within nofun
  · exact .done result (Nat.le_refl _) within trivial

theorem safe_openOperator : Safe stop (openOperator bounds tokens) := by
  intro cursor within
  obtain ⟨token, found, -⟩ := ends.exists_token within
  have result := from_openOperator bounds found
  split at result
  · exact .halt result (Nat.le_refl _) within nofun
  · exact .done result (Nat.le_refl _) within trivial

theorem safe_previous : Safe stop (previous tokens) := by
  intro cursor within
  have known : ∃ span, spanBefore? tokens cursor.index = some span := by
    cases behind : cursor.index with
    | zero =>
        exact ⟨_, rfl⟩
    | succ index =>
        rw [behind] at within
        obtain ⟨token, found, -⟩ := ends.exists_token (Nat.le_of_succ_le within)
        exact ⟨token.span, by rw [spanBefore?, found, Option.map_some]⟩
  obtain ⟨span, known⟩ := known
  exact .done (from_previous known) (Nat.le_refl _) within trivial

/-- A literal or a name is a token that is consumed. -/
theorem runs_operand
    {cursor : Cursor} {token : Token} {value : Expression}
    (within : cursor.index ≤ stop)
    (found : tokens[cursor.index]? = some token)
    (operand : operand? token = some value) :
    Runs stop (do let _ ← advance tokens; return value) cursor
      (fun _ next => cursor.index < next.index) (· ≠ .outside) := by
  have goesOn : token.role ≠ .endOfInput := by
    intro finish
    simp [operand?, finish] at operand
  exact .step (from_advance found goesOn) (Nat.le_succ _)
    (.pure (ends.succ_le within found goesOn) (Nat.lt_succ_self _))

/-- What calls of some depth do with expressions, wherever the cursor is. -/
structure ConsumesExpressions
    (bounds : Bounds)
    (tokens : List Token)
    (stop calls : Nat) : Prop where
  expression :
    ∀ precedence, Consuming stop (Descent.expression bounds tokens calls precedence)
  chain :
    ∀ precedence left count,
      Safe stop (Descent.chain bounds tokens calls precedence left count)
  primary : Consuming stop (Descent.primary bounds tokens calls)

theorem ConsumesExpressions.next_chain
    {calls : Nat}
    (inner : ConsumesExpressions bounds tokens stop calls)
    (precedence : Nat)
    (left : Expression)
    (count : Nat) :
    Safe stop (Descent.chain bounds tokens (calls + 1) precedence left count) := by
  rw [Descent.chain]
  refine (safe_here ends).bind fun token => ?_
  split
  case h_1 operator tight =>
    exact (safe_openOperator ends).bind fun _ => (safe_advance ends).bind
      fun _ => (inner.expression _).safe.bind fun right => inner.chain _ _ _
  case h_2 =>
    exact (safe_closeOperators count).bind fun _ => safe_pure left

theorem ConsumesExpressions.next_primary
    {calls : Nat}
    (inner : ConsumesExpressions bounds tokens stop calls) :
    Consuming stop (Descent.primary bounds tokens (calls + 1)) := by
  rw [Descent.primary]
  intro cursor within
  obtain ⟨token, found, -⟩ := ends.exists_token within
  refine .step (from_here found) (Nat.le_refl _) ?_
  split
  case h_1 value operand =>
    exact runs_operand ends within found operand
  case h_2 =>
    split
    case isTrue opens =>
      exact ((safe_advance ends).bind_consuming fun _ => (safe_enter ends).bind_consuming
        fun _ => (inner.expression 1).bind fun value => safe_leave.bind
          fun _ => (consuming_expect ends _).safe.bind fun _ => safe_pure value) cursor within
    case isFalse other =>
      exact consuming_refuse ends _ cursor within

/-- An expression is consumed, one call inside another. -/
theorem consumesExpressions (calls : Nat) : ConsumesExpressions bounds tokens stop calls := by
  induction calls with
  | zero =>
      exact ⟨fun _ => consuming_exhausted, fun _ _ _ => consuming_exhausted.safe,
        consuming_exhausted⟩
  | succ calls inductionHypothesis =>
      exact ⟨fun precedence => inductionHypothesis.primary.bind
          fun left => inductionHypothesis.chain precedence left 0,
        inductionHypothesis.next_chain ends, inductionHypothesis.next_primary ends⟩

theorem consuming_enclosed (before after : Wanted) (calls : Nat) :
    Consuming stop (enclosed bounds tokens before after calls) :=
  (consuming_expect ends _).bind fun _ => ((consumesExpressions ends calls).expression _).safe.bind
    fun value => (consuming_expect ends _).safe.bind fun _ => safe_pure value

theorem consuming_printing (calls : Nat) : Consuming stop (printing bounds tokens calls) :=
  (safe_advance ends).bind_consuming fun _ => (consuming_enclosed ends _ _ calls).bind
    fun _ => (consuming_expect ends _).safe.bind fun _ => (safe_previous ends).bind
      fun _ => safe_pure _

theorem consuming_declaration (type : DeclaredType) (calls : Nat) :
    Consuming stop (declaration bounds tokens type calls) :=
  (safe_advance ends).bind_consuming fun _ => (consuming_expect ends _).bind
    fun _ => (consuming_enclosed ends _ _ calls).safe.bind fun _ => (safe_previous ends).bind
      fun _ => safe_pure _

theorem consuming_assignment (calls : Nat) : Consuming stop (assignment bounds tokens calls) :=
  (consuming_expect ends _).bind fun _ => (consuming_enclosed ends _ _ calls).safe.bind
    fun _ => (safe_previous ends).bind fun _ => safe_pure _

theorem safe_closing : Safe stop (closing tokens) := by
  refine (safe_here ends).bind fun token => ?_
  split
  · exact (safe_advance ends).bind fun _ => safe_pure _
  · exact safe_pure _

/-- What calls of some depth do with statements, wherever the cursor is. -/
structure ConsumesStatements
    (bounds : Bounds)
    (tokens : List Token)
    (stop calls : Nat) : Prop where
  statement : Consuming stop (Descent.statement bounds tokens calls)
  conditional : Consuming stop (Descent.conditional bounds tokens calls)
  loop : Consuming stop (Descent.loop bounds tokens calls)
  block : Consuming stop (Descent.block bounds tokens calls)
  statements :
    ∀ inBlock before, Safe stop (Descent.statements bounds tokens calls inBlock before)

section

variable {calls : Nat} (inner : ConsumesStatements bounds tokens stop calls)

include inner

theorem ConsumesStatements.next_statement :
    Consuming stop (Descent.statement bounds tokens (calls + 1)) := by
  rw [Descent.statement]
  refine (safe_here ends).bind_consuming fun token => ?_
  split
  case h_1 =>
    exact consuming_printing ends calls
  case h_2 | h_3 | h_4 =>
    exact consuming_declaration ends _ calls
  case h_5 =>
    exact inner.conditional
  case h_6 =>
    exact inner.loop
  case h_7 =>
    exact consuming_assignment ends calls
  case h_8 =>
    exact consuming_refuse ends _

theorem ConsumesStatements.next_conditional :
    Consuming stop (Descent.conditional bounds tokens (calls + 1)) := by
  rw [Descent.conditional]
  refine (safe_advance ends).bind_consuming fun _ => (consuming_enclosed ends _ _ calls).bind
    fun _ => inner.block.safe.bind fun _ => (safe_here ends).bind fun token => ?_
  split
  case isTrue alternative =>
    exact (safe_advance ends).bind fun _ => inner.block.safe.bind
      fun _ => (safe_previous ends).bind fun _ => safe_pure _
  case isFalse other =>
    exact (safe_previous ends).bind fun _ => safe_pure _

theorem ConsumesStatements.next_loop :
    Consuming stop (Descent.loop bounds tokens (calls + 1)) :=
  (safe_advance ends).bind_consuming fun _ => (consuming_enclosed ends _ _ calls).bind
    fun _ => inner.block.safe.bind fun _ => (safe_previous ends).bind fun _ => safe_pure _

theorem ConsumesStatements.next_block :
    Consuming stop (Descent.block bounds tokens (calls + 1)) :=
  (consuming_expect ends _).bind fun _ => (safe_enter ends).bind
    fun _ => (inner.statements true []).bind fun _ => (safe_closing ends).bind
      fun _ => safe_leave.bind fun _ => (safe_previous ends).bind fun _ => safe_pure _

theorem ConsumesStatements.next_statements (inBlock : Bool) (before : List Statement) :
    Safe stop (Descent.statements bounds tokens (calls + 1) inBlock before) := by
  rw [Descent.statements]
  refine (safe_here ends).bind fun token => ?_
  split
  case isTrue ended =>
    exact safe_pure _
  case isFalse goesOn =>
    exact inner.statement.safe.bind fun next => inner.statements inBlock (next :: before)

end

/-- A statement is consumed, one call inside another. -/
theorem consumesStatements (calls : Nat) : ConsumesStatements bounds tokens stop calls := by
  induction calls with
  | zero =>
      exact ⟨consuming_exhausted, consuming_exhausted, consuming_exhausted, consuming_exhausted,
        fun _ _ => consuming_exhausted.safe⟩
  | succ calls inductionHypothesis =>
      exact ⟨inductionHypothesis.next_statement ends, inductionHypothesis.next_conditional ends,
        inductionHypothesis.next_loop ends, inductionHypothesis.next_block ends,
        inductionHypothesis.next_statements ends⟩

theorem safe_program (calls : Nat) : Safe stop (program bounds tokens calls) := by
  refine (safe_here ends).bind fun first =>
    ((consumesStatements ends calls).statements false []).bind fun body => ?_
  split
  · exact safe_pure _
  · exact (safe_previous ends).bind fun _ => safe_pure _

end

end Bhasha.Reader.Descent
