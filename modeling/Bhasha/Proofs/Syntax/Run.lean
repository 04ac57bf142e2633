import Bhasha.Proofs.Syntax.Bounds
import Bhasha.Proofs.Syntax.Soundness
import Mathlib.Data.List.TakeWhile

namespace Bhasha.Reader

/-!
# Runs of a reader

A run takes the tokens before a place to that place, and the token after it is
either taken or refused there.  A refusal that names what was wanted depends on
the place alone: `Refuses` says that the token is refused whatever the bounds are
and whatever follows it.  So a run within narrow bounds is also one within wide
bounds, and a token that is refused within narrow bounds is refused within wide
ones.
-/

/-- No bound of the first is above that of the second. -/
structure Bounds.Narrower (narrow wide : Bounds) : Prop where
  nesting : narrow.nesting ≤ wide.nesting
  operators : narrow.operators ≤ wide.operators

/-- A token is refused at a place, whatever the bounds are and whatever follows. -/
def State.Refuses (state : State) (token : Token) (wanted : Wanted) : Prop :=
  ∀ (bounds : Bounds) (ending : Token) (rest : List Token),
    state.readTo bounds ending (token :: rest) = .error (token, .wanted wanted)

/-- A place that is not beyond the nesting bound. -/
def State.Reachable (state : State) : Prop :=
  match state.expecting with
  | .tooDeep => False
  | _ => True

/-- A move within narrow bounds that does not go beyond them is one within wide bounds. -/
theorem Move.widen
    {narrow wide : Bounds} {state next : State} {token : Token}
    (moved : Move narrow state token next)
    (reachable : next.Reachable)
    (narrower : narrow.Narrower wide) :
    Move wide state token next := by
  cases moved with
  | start starts =>
      exact .start starts
  | alternative role =>
      exact .alternative role
  | noAlternative starts =>
      exact .noAlternative starts
  | name role =>
      exact .name role
  | assign role =>
      exact .assign role
  | openParen role =>
      exact .openParen role
  | operand found =>
      exact .operand found
  | paren role within =>
      exact .paren role (Nat.lt_of_lt_of_le within narrower.nesting)
  | parenTooDeep | braceTooDeep =>
      exact reachable.elim
  | operator role joined within =>
      exact .operator role joined (Nat.lt_of_lt_of_le within narrower.operators)
  | closeParen role joined =>
      exact .closeParen role joined
  | ends joined ended =>
      exact .ends joined ended
  | endOfPrint role =>
      exact .endOfPrint role
  | openBrace role within =>
      exact .openBrace role (Nat.lt_of_lt_of_le within narrower.nesting)

/-- Nothing moves beyond the nesting bound. -/
theorem Move.reachable
    {bounds : Bounds} {state next : State} {token : Token}
    (moved : Move bounds state token next) :
    state.Reachable := by
  cases moved <;> trivial

/-- A move ends after its token. -/
theorem Move.last_eq
    {bounds : Bounds} {state next : State} {token : Token}
    (moved : Move bounds state token next) :
    next.last = token.span := by
  cases moved with
  | start starts | noAlternative starts =>
      cases starts with
      | @close block outer role inside =>
          rcases block with ⟨owner, start, before⟩
          cases owner <;> rfl
      | print | declare | conditional | loop | assign =>
          rfl
  | ends joined ended =>
      cases ended <;> rfl
  | alternative | name | assign | openParen | operand | paren | parenTooDeep | operator
  | closeParen | endOfPrint | openBrace | braceTooDeep =>
      rfl

/-- Joining all that waits ends at a parenthesis exactly when one waits. -/
theorem parens_eq_zero_of_settle
    {waiting : List Waiting} {value whole : Expression} {opened before : Nat}
    (joined : settle 0 waiting value opened = ([], whole, before)) :
    Waiting.parens waiting = 0 :=
  (parens_settle joined).symm

theorem parens_ne_zero_of_settle
    {waiting settled : List Waiting} {value inner : Expression} {opened before count : Nat}
    (joined : settle 0 waiting value opened = (.paren count :: settled, inner, before)) :
    Waiting.parens waiting ≠ 0 := by
  rw [← parens_settle joined, Waiting.parens_paren]
  exact Nat.succ_ne_zero _

/-- Closing a parenthesis leaves less waiting. -/
theorem length_lt_of_settle
    {waiting settled : List Waiting} {value inner : Expression} {opened before count : Nat}
    (joined : settle 0 waiting value opened = (.paren count :: settled, inner, before)) :
    settled.length < waiting.length := by
  have kept : (Waiting.paren count :: settled).length ≤ waiting.length :=
    settle_keeps (motive := fun rest _ _ => rest.length ≤ waiting.length) joined
      (fun _ _ _ _ _ _ longer => Nat.le_of_succ_le longer) (Nat.le_refl _)
  exact kept

namespace State

/-- A token that is refused ends a run at the place where it is refused. -/
theorem exists_of_steps_error
    {bounds : Bounds} {state : State} {items : List Token} {token : Token} {refusal : Refusal}
    (refused : state.steps bounds items = .error (token, refusal)) :
    ∃ before after place,
      items = before ++ token :: after ∧
        state.steps bounds before = .ok place ∧
          place.step bounds token = .error refusal := by
  induction items generalizing state with
  | nil =>
      cases refused
  | cons first rest inductionHypothesis =>
      unfold steps at refused
      cases stepped : state.step bounds first with
      | error found =>
          rw [stepped] at refused
          cases refused
          exact ⟨[], rest, state, rfl, rfl, stepped⟩
      | ok next =>
          rw [stepped] at refused
          obtain ⟨before, after, place, rfl, run, atPlace⟩ := inductionHypothesis refused
          refine ⟨first :: before, after, place, rfl, ?_, atPlace⟩
          simp only [steps, stepped, run]

/-- A run of at least one token starts with a move. -/
theorem steps_cons_eq_ok_iff
    {bounds : Bounds} {state last : State} {token : Token} {rest : List Token} :
    state.steps bounds (token :: rest) = .ok last ↔
      ∃ next, Move bounds state token next ∧ next.steps bounds rest = .ok last := by
  rw [steps]
  constructor
  · intro run
    cases stepped : state.step bounds token with
    | ok next =>
        rw [stepped] at run
        exact ⟨next, step_eq_ok_iff.mp stepped, run⟩
    | error refusal =>
        rw [stepped] at run
        cases run
  · rintro ⟨next, moved, run⟩
    rw [step_eq_ok_iff.mpr moved]
    exact run

/-- After a run the tokens that remain are read from the place it leads to. -/
theorem readTo_of_steps
    {bounds : Bounds} {state place : State} {before : List Token}
    (run : state.steps bounds before = .ok place)
    (ending : Token)
    (rest : List Token) :
    state.readTo bounds ending (before ++ rest) = place.readTo bounds ending rest := by
  induction before generalizing state with
  | nil =>
      cases run
      rfl
  | cons token before inductionHypothesis =>
      obtain ⟨next, moved, run⟩ := steps_cons_eq_ok_iff.mp run
      rw [List.cons_append, moved.readTo]
      exact inductionHypothesis run

/-- After a run the steps over the tokens that remain are taken from the place it leads to. -/
theorem steps_append
    {bounds : Bounds} {state place : State} {before : List Token}
    (run : state.steps bounds before = .ok place)
    (rest : List Token) :
    state.steps bounds (before ++ rest) = place.steps bounds rest := by
  induction before generalizing state with
  | nil =>
      cases run
      rfl
  | cons token before inductionHypothesis =>
      obtain ⟨next, moved, run⟩ := steps_cons_eq_ok_iff.mp run
      rw [List.cons_append, steps, step_eq_ok_iff.mpr moved]
      exact inductionHypothesis run

/-- A place from which a run goes on is within the bounds, as nothing moves beyond them. -/
theorem reachable_of_steps
    {bounds : Bounds} {state place : State} {items : List Token}
    (run : state.steps bounds items = .ok place)
    (reachable : place.Reachable) :
    state.Reachable := by
  cases items with
  | nil =>
      cases run
      exact reachable
  | cons =>
      obtain ⟨_, moved, _⟩ := steps_cons_eq_ok_iff.mp run
      exact moved.reachable

/-- A run within narrow bounds that does not end beyond them is one within wide bounds. -/
theorem steps_widen
    {narrow wide : Bounds} {state place : State} {items : List Token}
    (narrower : narrow.Narrower wide)
    (run : state.steps narrow items = .ok place)
    (reachable : place.Reachable) :
    state.steps wide items = .ok place := by
  induction items generalizing state with
  | nil =>
      exact run
  | cons token rest inductionHypothesis =>
      obtain ⟨next, moved, run⟩ := steps_cons_eq_ok_iff.mp run
      have nextReachable : next.Reachable := reachable_of_steps run reachable
      exact steps_cons_eq_ok_iff.mpr
        ⟨next, moved.widen nextReachable narrower, inductionHypothesis run⟩

/-- A refusal after an operand, if not for too many operators, names what may follow it. -/
theorem readOperator_eq_error
    {bounds : Bounds} {state : State} {token : Token} {heading : Heading}
    {waiting : List Waiting} {value : Expression} {opened : Nat} {wanted : Wanted}
    (refused :
      state.readOperator bounds token heading waiting value opened = .error (.wanted wanted)) :
    (if Waiting.parens waiting = 0 then heading.wantedAfter else .closeParen) = wanted ∧
      ∀ other : Bounds,
        state.readOperator other token heading waiting value opened = .error (.wanted wanted) := by
  unfold readOperator at refused ⊢
  split at refused
  case h_1 operator role =>
    rcases joined : settle operator.precedence waiting value opened with ⟨settled, left, before⟩
    simp only [joined] at refused
    split at refused <;> cases refused
  case h_2 notBinary =>
    refine ⟨?_, fun _ => refused⟩
    rcases settle_zero_shape waiting value opened with
      ⟨whole, before, joined⟩ | ⟨before, settled, inner, innermost, joined⟩
    · simp only [joined] at refused
      rw [if_pos (parens_eq_zero_of_settle joined)]
      cases endExpression_eq_error refused
      rfl
    · simp only [joined] at refused
      rw [if_neg (parens_ne_zero_of_settle joined)]
      split at refused <;> cases refused
      rfl

/-- What a refused token was wanted for is known from the place, and so is that it is refused. -/
theorem step_eq_error_wanted
    {bounds : Bounds} {state : State} {token : Token} {wanted : Wanted}
    (refused : state.step bounds token = .error (.wanted wanted)) :
    state.expecting.refusal = .wanted wanted ∧
      ∀ other : Bounds, state.step other token = .error (.wanted wanted) := by
  rcases state with ⟨blocks, body, expecting, last⟩
  cases expecting with
  | statement =>
      exact ⟨(startStatement_eq_error refused).symm, fun _ => refused⟩
  | alternate start condition consequent =>
      by_cases alternative : token.role = .keyword .alternative
      · simp [step, alternative] at refused
      · rw [step_alternate alternative] at refused
        refine ⟨(startStatement_eq_error refused).symm, fun other => ?_⟩
        rw [step_alternate alternative]
        exact refused
  | name | assign | openParen | endOfPrint =>
      refine ⟨?_, fun _ => refused⟩
      simp only [step, refuse] at refused
      split at refused <;> cases refused
      rfl
  | operand heading waiting =>
      cases role : token.role with
      | openParen =>
          simp only [step, readOperand, role] at refused
          split at refused <;> cases refused
      | _ =>
          simp_all [step, readOperand, Expecting.refusal]
  | operator heading waiting value opened =>
      obtain ⟨same, always⟩ := readOperator_eq_error refused
      exact ⟨congrArg Refusal.wanted same, always⟩
  | openBrace owner =>
      cases role : token.role <;> simp_all [step, refuse, Expecting.refusal]
  | tooDeep =>
      cases refused

/-- A token that is refused by a step for what was wanted is refused whatever follows. -/
theorem Refuses.ofStep
    {bounds : Bounds} {state : State} {token : Token} {wanted : Wanted}
    (notFinish : token.role ≠ .endOfInput)
    (refused : state.step bounds token = .error (.wanted wanted)) :
    state.Refuses token wanted := by
  intro other ending rest
  have always := (step_eq_error_wanted refused).2 other
  exact readTo_of_refused notFinish always ending rest

/-- The end of the input is refused where a program cannot end, whatever follows. -/
theorem Refuses.ofFinish
    {state : State} {token : Token} {wanted : Wanted}
    (finish : token.role = .endOfInput)
    (refused : state.finish = .error (.wanted wanted)) :
    state.Refuses token wanted := by
  intro bounds ending rest
  rw [readTo_of_finish finish]
  simp only [readEnd, refused]

end State

/-- A run reads its tokens. -/
theorem Reads.steps
    {bounds : Bounds} {before items : List Token} {state place : State}
    (read : Reads before state)
    (run : state.steps bounds items = .ok place) :
    Reads (before ++ items) place := by
  induction items generalizing before state with
  | nil =>
      cases run
      simpa using read
  | cons token rest inductionHypothesis =>
      obtain ⟨next, moved, run⟩ := State.steps_cons_eq_ok_iff.mp run
      simpa using inductionHypothesis (read.move moved) run

/-- Before its first end of input a list holds its items. -/
theorem itemsOf_append
    {items : List Token} {finish : Token}
    (inside : ∀ token ∈ items, token.role ≠ .endOfInput)
    (ends : finish.role = .endOfInput)
    (after : List Token) :
    itemsOf (items ++ finish :: after) = items ∧ finishOf (items ++ finish :: after) = finish := by
  have finishes : finish.isFinish = true := (Token.role_eq_endOfInput_iff _).mp ends
  have goesOn : ∀ token ∈ items, token.isFinish = false := by
    intro token member
    simpa [Token.role_eq_endOfInput_iff] using inside token member
  constructor
  · rw [itemsOf, List.takeWhile_append_of_pos (by simpa using goesOn)]
    simp [finishes]
  · have notFound : items.find? Token.isFinish = none := by
      simpa using goesOn
    simp [finishOf, List.find?_append, notFound, finishes]

/-- Before its only end of input a list holds its items. -/
theorem itemsOf_of_ends
    {items : List Token} {finish : Token}
    (inside : ∀ token ∈ items, token.role ≠ .endOfInput)
    (ends : finish.role = .endOfInput) :
    itemsOf (items ++ [finish]) = items ∧ finishOf (items ++ [finish]) = finish :=
  itemsOf_append inside ends []

/-- The items of a list are no ends of the input. -/
theorem role_ne_of_mem_itemsOf
    {tokens : List Token} {token : Token}
    (member : token ∈ itemsOf tokens) :
    token.role ≠ .endOfInput := by
  have goesOn := List.all_eq_true.mp List.all_takeWhile token member
  rw [Ne, Token.role_eq_endOfInput_iff]
  simpa using goesOn

/-- A list without an end of the input is all items, and lacks the end. -/
theorem itemsOf_eq_self
    {tokens : List Token}
    (goesOn : ∀ token ∈ tokens, token.role ≠ .endOfInput) :
    itemsOf tokens = tokens ∧ finishOf tokens = finishAfter tokens := by
  have inside : ∀ token ∈ tokens, token.isFinish = false := by
    intro token member
    simpa [Token.role_eq_endOfInput_iff] using goesOn token member
  have notFound : tokens.find? Token.isFinish = none := by
    simpa using inside
  have whole : itemsOf tokens = tokens :=
    List.takeWhile_eq_self_iff.mpr fun token member => by simp [inside token member]
  exact ⟨whole, by simp [finishOf, notFound]⟩

theorem finishOf_role (tokens : List Token) :
    (finishOf tokens).role = .endOfInput := by
  rw [Token.role_eq_endOfInput_iff, finishOf]
  cases found : tokens.find? Token.isFinish with
  | some finish =>
      exact List.find?_some found
  | none =>
      rw [Option.getD_none, finishAfter]
      split <;> rfl

/-- What is read from a place is what a run over the tokens before the end ends with. -/
theorem State.exists_steps_of_readTo
    {bounds : Bounds} {ending : Token} {state : State} {tokens : List Token}
    {body : List Statement} {last : Span}
    (accepted : state.readTo bounds ending tokens = .ok (body, last)) :
    ∃ place, state.steps bounds (itemsOf tokens) = .ok place ∧
      place.finish = .ok body ∧ place.last = last := by
  rw [← steps_bind_readEnd] at accepted
  cases run : state.steps bounds (itemsOf tokens) with
  | error refused =>
      rw [run] at accepted
      cases accepted
  | ok place =>
      rw [run] at accepted
      simp only [Except.bind, readEnd] at accepted
      cases finished : place.finish with
      | error refusal =>
          rw [finished] at accepted
          cases accepted
      | ok found =>
          rw [finished] at accepted
          cases accepted
          exact ⟨place, rfl, finished, rfl⟩

/-- What is read off a list is what a run over the tokens before its end ends with. -/
theorem exists_steps_of_read_items
    {bounds : Bounds} {tokens : List Token} {body : List Statement} {last : Span}
    (accepted : read bounds tokens = .ok (body, last)) :
    ∃ place, State.initial.steps bounds (itemsOf tokens) = .ok place ∧
      place.finish = .ok body ∧ place.last = last := by
  rw [read_eq_readTo] at accepted
  exact State.exists_steps_of_readTo accepted

/-- What is read off a list is what a run over its items ends with. -/
theorem exists_steps_of_read
    {bounds : Bounds} {items : List Token} {finish : Token} {body : List Statement}
    {last : Span}
    (inside : ∀ token ∈ items, token.role ≠ .endOfInput)
    (ends : finish.role = .endOfInput)
    (accepted : read bounds (items ++ [finish]) = .ok (body, last)) :
    ∃ place, State.initial.steps bounds items = .ok place ∧
      place.finish = .ok body ∧ place.last = last := by
  obtain ⟨sameItems, -⟩ := itemsOf_of_ends inside ends
  rw [← sameItems]
  exact exists_steps_of_read_items accepted

/-- The statements of a program that is parsed are read off the list. -/
theorem exists_read_of_parseTokens
    {source : Source} {tokens : List Token} {program : Program}
    (parsed : parseTokens source tokens = .ok program) :
    ∃ last, read .standard tokens = .ok (program.body, last) := by
  unfold parseTokens at parsed
  split at parsed
  case h_1 body last accepted =>
    cases parsed
    exact ⟨last, accepted⟩
  case h_2 =>
    cases parsed

end Bhasha.Reader
