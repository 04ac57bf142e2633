import Bhasha.Proofs.Syntax.Completeness

namespace Bhasha.Reader

/-!
# How much can be open

No more can be open than tokens were read.  So bounds above the number of tokens
are never reached, and a list of tokens that is refused for too much being open
is refused by small bounds only.
-/

/-- The operators that are open once an entry is at its end. -/
def Waiting.count : Waiting → Nat
  | .operand _ _ opened => opened
  | .paren opened => opened

theorem Waiting.opened_operand
    (left : Expression) (operator : BinaryOperator) (opened : Nat) (waiting : List Waiting) :
    Waiting.opened (.operand left operator opened :: waiting) = opened :=
  rfl

theorem Waiting.opened_paren (opened : Nat) (waiting : List Waiting) :
    Waiting.opened (.paren opened :: waiting) = opened :=
  rfl

theorem Waiting.parens_operand
    (left : Expression) (operator : BinaryOperator) (opened : Nat) (waiting : List Waiting) :
    Waiting.parens (.operand left operator opened :: waiting) = Waiting.parens waiting := by
  simp [Waiting.parens]

theorem Waiting.parens_paren (opened : Nat) (waiting : List Waiting) :
    Waiting.parens (.paren opened :: waiting) = Waiting.parens waiting + 1 := by
  simp [Waiting.parens]

/-- What joining one operand with the next keeps is kept by joining those that bind tightly. -/
theorem settle_keeps
    {motive : List Waiting → Expression → Nat → Prop}
    {precedence : Nat} {waiting settled : List Waiting} {value joined : Expression}
    {opened before : Nat}
    (settles : settle precedence waiting value opened = (settled, joined, before))
    (join : ∀ left operator count rest value opened,
      motive (.operand left operator count :: rest) value opened →
        motive rest (.join operator left value) count)
    (start : motive waiting value opened) :
    motive settled joined before := by
  induction waiting generalizing value opened with
  | nil =>
      cases settles
      exact start
  | cons entry rest inductionHypothesis =>
      cases entry with
      | operand left operator count =>
          by_cases tight : precedence ≤ operator.precedence
          · rw [settle, if_pos tight] at settles
            exact inductionHypothesis settles (join left operator count rest value opened start)
          · rw [settle, if_neg tight] at settles
            cases settles
            exact start
      | paren count =>
          cases settles
          exact start

/-- Joining operands closes no parenthesis. -/
theorem parens_settle
    {precedence : Nat} {waiting settled : List Waiting} {value joined : Expression}
    {opened before : Nat}
    (settles : settle precedence waiting value opened = (settled, joined, before)) :
    Waiting.parens settled = Waiting.parens waiting := by
  refine settle_keeps (motive := fun rest _ _ => Waiting.parens rest = Waiting.parens waiting)
    settles ?_ rfl
  intro left operator count rest value opened kept
  rwa [Waiting.parens_operand] at kept

/-- Joining operands leaves no more operators open than were open where one of them waits. -/
theorem settle_within
    {precedence : Nat} {waiting settled : List Waiting} {value joined : Expression}
    {opened before limit : Nat}
    (settles : settle precedence waiting value opened = (settled, joined, before))
    (counts : ∀ entry ∈ waiting, entry.count ≤ limit)
    (count : opened ≤ limit) :
    (∀ entry ∈ settled, entry.count ≤ limit) ∧ before ≤ limit := by
  refine settle_keeps
    (motive := fun rest _ opened => (∀ entry ∈ rest, entry.count ≤ limit) ∧ opened ≤ limit)
    settles ?_ ⟨counts, count⟩
  rintro left operator count rest value opened ⟨counts, -⟩
  obtain ⟨outer, others⟩ := List.forall_mem_cons.mp counts
  exact ⟨others, outer⟩

/-- At most as many parentheses, blocks and operators are open as a number says. -/
def State.Within (limit : Nat) (state : State) : Prop :=
  match state.expecting with
  | .operand _ waiting =>
      state.blocks.length + Waiting.parens waiting ≤ limit ∧
        ∀ entry ∈ waiting, entry.count ≤ limit
  | .operator _ waiting _ opened =>
      state.blocks.length + Waiting.parens waiting ≤ limit ∧
        (∀ entry ∈ waiting, entry.count ≤ limit) ∧ opened ≤ limit
  | .tooDeep => False
  | _ => state.blocks.length ≤ limit

/-- A count of the operators that are open is the count of an entry, or none are open. -/
theorem Waiting.opened_le
    {waiting : List Waiting} {limit : Nat}
    (counts : ∀ entry ∈ waiting, entry.count ≤ limit) :
    Waiting.opened waiting ≤ limit := by
  rcases waiting with _ | ⟨⟨left, operator, before⟩ | before, rest⟩
  · exact Nat.zero_le _
  · exact counts _ List.mem_cons_self
  · exact counts _ List.mem_cons_self

/-- A token of a statement opens at most a block. -/
theorem Starts.within
    {blocks : List OpenBlock} {body : List Statement} {token : Token} {next : State}
    (starts : Starts blocks body token next)
    {limit : Nat}
    (count : blocks.length ≤ limit) :
    next.Within limit := by
  cases starts with
  | print | declare | conditional | loop | assign =>
      exact count
  | @close block outer role inside =>
      subst inside
      rw [List.length_cons] at count
      rcases block with ⟨owner, start, before⟩
      cases owner <;> exact Nat.le_of_succ_le count

/-- A move opens at most one more. -/
theorem Move.within
    {bounds : Bounds} {state next : State} {token : Token}
    (moved : Move bounds state token next)
    {limit : Nat}
    (count : state.Within limit)
    (nesting : limit < bounds.nesting) :
    next.Within (limit + 1) := by
  cases moved with
  | start starts | noAlternative starts =>
      exact starts.within (Nat.le_succ_of_le count)
  | alternative | name | endOfPrint =>
      exact Nat.le_succ_of_le count
  | assign | openParen =>
      exact ⟨Nat.le_succ_of_le count, by simp⟩
  | operand found =>
      obtain ⟨depth, counts⟩ := count
      exact ⟨Nat.le_succ_of_le depth, fun entry member => Nat.le_succ_of_le (counts entry member),
        Nat.le_succ_of_le (Waiting.opened_le counts)⟩
  | @paren blocks _ _ _ _ waiting role within =>
      obtain ⟨depth, counts⟩ := count
      refine ⟨?_, ?_⟩
      · rw [Waiting.parens_paren]
        exact Nat.succ_le_succ depth
      · intro entry member
        rcases List.mem_cons.mp member with rfl | member
        · exact Nat.le_succ_of_le (Waiting.opened_le counts)
        · exact Nat.le_succ_of_le (counts entry member)
  -- With fewer open than the bound allows, nothing is too deep.
  | parenTooDeep role beyond =>
      exact (Nat.not_le.mpr nesting (Nat.le_trans beyond count.1)).elim
  | braceTooDeep role beyond =>
      exact (Nat.not_le.mpr nesting (Nat.le_trans beyond count)).elim
  | @operator blocks _ _ _ _ waiting settled value left opened before operator role joined within =>
      obtain ⟨depth, counts, count⟩ := count
      obtain ⟨settledCounts, beforeCount⟩ := settle_within joined counts count
      refine ⟨?_, ?_⟩
      · rw [Waiting.parens_operand, parens_settle joined]
        exact Nat.le_succ_of_le depth
      · intro entry member
        rcases List.mem_cons.mp member with rfl | member
        · exact Nat.succ_le_succ beforeCount
        · exact Nat.le_succ_of_le (settledCounts entry member)
  | @closeParen blocks _ _ _ _ waiting settled value inner opened before innermost role joined =>
      obtain ⟨depth, counts, count⟩ := count
      obtain ⟨settledCounts, -⟩ := settle_within joined counts count
      refine ⟨?_, ?_, Nat.le_succ_of_le (settledCounts _ List.mem_cons_self)⟩
      · have fewer : Waiting.parens settled ≤ Waiting.parens waiting := by
          rw [← parens_settle joined, Waiting.parens_paren]
          exact Nat.le_succ _
        exact Nat.le_succ_of_le (Nat.le_trans (Nat.add_le_add_left fewer _) depth)
      · exact fun entry member =>
          Nat.le_succ_of_le (settledCounts entry (List.mem_cons_of_mem _ member))
  | ends joined ended =>
      have shallow := Nat.le_trans (Nat.le_add_right _ _) count.1
      cases ended <;> exact Nat.le_succ_of_le shallow
  | openBrace role within =>
      exact Nat.succ_le_succ count

/-- Too much is open beyond the nesting bound, or with one more operator than may be open. -/
theorem State.step_eq_limit
    {bounds : Bounds} {state : State} {token : Token} {refusal : Refusal}
    (refused : state.step bounds token = .error refusal)
    (isLimit : refusal.isLimit = true) :
    state.expecting = .tooDeep ∨
      ∃ heading waiting value opened operator settled left before,
        state.expecting = .operator heading waiting value opened ∧
          token.role = .binary operator ∧
            settle operator.precedence waiting value opened = (settled, left, before) ∧
              bounds.operators ≤ before := by
  rcases state with ⟨blocks, body, expecting, last⟩
  cases expecting with
  | statement =>
      rw [startStatement_eq_error refused] at isLimit
      cases isLimit
  | alternate start condition consequent =>
      by_cases alternative : token.role = .keyword .alternative
      · simp [step, alternative] at refused
      · rw [step_alternate alternative] at refused
        rw [startStatement_eq_error refused] at isLimit
        cases isLimit
  | name | assign | openParen | endOfPrint | openBrace =>
      simp only [step, refuse, Expecting.refusal] at refused
      split at refused <;> cases refused
      cases isLimit
  | operand heading waiting =>
      simp only [step, readOperand] at refused
      repeat' split at refused
      all_goals cases refused
      cases isLimit
  | operator heading waiting value opened =>
      simp only [step, readOperator] at refused
      split at refused
      · rename_i operator role
        rcases joined : settle operator.precedence waiting value opened with
          ⟨settled, left, before⟩
        simp only [joined] at refused
        split at refused
        · cases refused
        · rename_i beyond
          exact .inr ⟨heading, waiting, value, opened, operator, settled, left, before, rfl, role,
            joined, Nat.not_lt.mp beyond⟩
      · split at refused
        · split at refused <;> cases refused
          cases isLimit
        · rw [endExpression_eq_error refused] at isLimit
          cases isLimit
  | tooDeep =>
      exact .inl rfl

/-- A token is refused for too much being open beyond a bound only. -/
theorem State.step_not_limit
    {bounds : Bounds} {state : State} {token : Token} {refusal : Refusal} {limit : Nat}
    (count : state.Within limit)
    (operators : limit < bounds.operators)
    (refused : state.step bounds token = .error refusal) :
    refusal.isLimit = false := by
  rw [Bool.eq_false_iff]
  intro isLimit
  rcases State.step_eq_limit refused isLimit with
    tooDeep | ⟨heading, waiting, value, opened, operator, settled, left, before, expecting, -,
      joined, beyond⟩
  · simp [Within, tooDeep] at count
  · simp only [Within, expecting] at count
    obtain ⟨-, counts, count⟩ := count
    obtain ⟨-, beforeCount⟩ := settle_within joined counts count
    omega

/-- A program is refused at its end for too much being open beyond a bound only. -/
theorem State.finish_not_limit
    {state : State} {refusal : Refusal} {limit : Nat}
    (count : state.Within limit)
    (refused : state.finish = .error refusal) :
    refusal.isLimit = false := by
  obtain rfl := finish_eq_error refused
  rcases state with ⟨blocks, body, expecting, last⟩
  cases expecting with
  | tooDeep =>
      exact count.elim
  | statement | alternate | name | assign | openParen | operand | operator | endOfPrint
  | openBrace =>
      rfl

/-- The end of a program is not refused for too much being open within the bounds. -/
theorem not_overBounds_readEnd
    {state : State} {finish : Token} {limit : Nat}
    (count : state.Within limit) :
    ¬ OverBounds (state.readEnd finish) := by
  rintro ⟨token, refusal, refused, isLimit⟩
  unfold State.readEnd at refused
  split at refused
  case h_1 =>
    cases refused
  case h_2 found finished =>
    cases refused
    rw [State.finish_not_limit count finished] at isLimit
    cases isLimit

/-- Bounds above the number of tokens that remain are not reached. -/
theorem not_overBounds_readTo
    {bounds : Bounds} {ending : Token} {tokens : List Token} {state : State} {limit : Nat}
    (count : state.Within limit)
    (nesting : limit + tokens.length < bounds.nesting)
    (operators : limit + tokens.length < bounds.operators) :
    ¬ OverBounds (state.readTo bounds ending tokens) := by
  induction tokens generalizing state limit with
  | nil =>
      exact not_overBounds_readEnd count
  | cons token rest inductionHypothesis =>
      rw [List.length_cons] at nesting operators
      by_cases ends : token.role = .endOfInput
      · rw [State.readTo_of_finish ends]
        exact not_overBounds_readEnd count
      · cases stepped : state.step bounds token with
        | ok next =>
            have moved := State.step_eq_ok_iff.mp stepped
            rw [moved.readTo]
            exact inductionHypothesis (moved.within count (by omega)) (by omega) (by omega)
        | error refusal =>
            rw [State.readTo_of_refused ends stepped]
            rintro ⟨token, found, same, isLimit⟩
            cases same
            rw [State.step_not_limit count (by omega) stepped] at isLimit
            cases isLimit

/-- Bounds above the number of tokens are not reached by any program. -/
theorem not_overBounds_read
    {bounds : Bounds} {tokens : List Token}
    (nesting : tokens.length < bounds.nesting)
    (operators : tokens.length < bounds.operators) :
    ¬ OverBounds (read bounds tokens) := by
  rw [read_eq_readTo]
  have nothing : State.initial.Within 0 := Nat.le_refl 0
  exact not_overBounds_readTo nothing (by omega) (by omega)

end Bhasha.Reader
