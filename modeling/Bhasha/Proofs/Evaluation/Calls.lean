import Bhasha.Proofs.Evaluation.Recursion

namespace Bhasha

/-!
# How deep calls of the evaluator go

The walk down the left side of a chain is a loop.  A call is made for the leaf at
its end and for each right operand, and nowhere else; so calls go as deep as
steps into right operands do.  `Expression.evaluateWithin` evaluates with a number
of nested calls and gives nothing when more are needed, and it needs no more than
one for each step into a right operand on the way to some leaf, and one for the
whole.
-/

/-- The operands of an operator. -/
inductive Side where
  | left
  | right
  deriving Repr, DecidableEq

namespace Expression

/-- The part of an expression that a path of operands leads to. -/
def follow : Expression → List Side → Option Expression
  | value, [] => some value
  | .binary _ left _ _, .left :: path => left.follow path
  | .binary _ _ right _, .right :: path => right.follow path
  | .literal .., _ :: _ | .name .., _ :: _ => none

/-- The most right operands that a path from an expression to one of its leaves goes into. -/
def rightDepth : Expression → Nat
  | literal .. | name .. => 0
  | binary _ left right _ => max left.rightDepth (right.rightDepth + 1)

/-- No path goes into more right operands than the depth says. -/
theorem count_right_le_rightDepth
    {value part : Expression} {path : List Side}
    (leads : value.follow path = some part) :
    path.count .right ≤ value.rightDepth := by
  induction path generalizing value with
  | nil =>
      exact Nat.zero_le _
  | cons side path inductionHypothesis =>
      cases value with
      | literal | name =>
          simp [follow] at leads
      | binary operator left right span =>
          cases side with
          | left =>
              rw [List.count_cons_of_ne (by decide)]
              exact Nat.le_trans (inductionHypothesis leads) (Nat.le_max_left _ _)
          | right =>
              rw [List.count_cons_self]
              exact Nat.le_trans (Nat.succ_le_succ (inductionHypothesis leads))
                (Nat.le_max_right _ _)

end Expression

namespace Metered

/-- Go on with what came out of a call, unless the call could not be made or ended with a fault. -/
def next? (called : Option (Metered α)) (next : α → Nat → Option (Metered β)) :
    Option (Metered β) :=
  match called with
  | none => none
  | some ⟨.ok value, steps⟩ => next value steps
  | some ⟨.error fault, steps⟩ => some ⟨.error fault, steps⟩

theorem next?_some
    (first : Metered α)
    (next : α → Nat → Metered β) :
    next? (some first) (fun value steps => some (next value steps)) =
      some (first.andThen next) := by
  rcases first with ⟨fault | value, steps⟩ <;> rfl

end Metered

namespace Expression

open Metered

/-- An operator whose left operand is under way, and its right operand. -/
abbrev Waits := BinaryOperator × Expression

section

variable (limit : Nat) (environment : Environment)

/-- A call that evaluates an expression after some steps, if calls may still go so deep. -/
abbrev Call := Expression → Nat → Option (Metered Value)

/-- Apply operators that wait to a left operand, with a call for each right operand. -/
def settleWithin (call : Call) : List Waits → Value → Nat → Option (Metered Value)
  | [], value, steps => some (.ok value steps)
  | (operator, right) :: waiting, left, steps =>
      next? (call right steps) fun right steps =>
        match operator.apply left right with
        | .ok value => settleWithin call waiting value steps
        | .error fault => some (.fault fault steps)

/-- Walk down the left side of a chain, call for the leaf at its end, and apply what waits. -/
def chainWithin (call : Call) : Expression → List Waits → Nat → Option (Metered Value)
  | .binary operator left right _, waiting, steps =>
      if steps < limit then chainWithin call left ((operator, right) :: waiting) (steps + 1)
      else some (.fault .stepLimitExceeded (steps + 1))
  | leaf, waiting, steps =>
      next? (call leaf steps) fun value steps => settleWithin call waiting value steps

/-- Evaluate an expression with at most a number of nested calls. -/
def evaluateWithin : (calls : Nat) → Call
  | 0, _, _ => none
  | _ + 1, .literal value _ _, steps => some (tick limit steps (Metered.ok value.toValue))
  | _ + 1, .name text _, steps =>
      some (tick limit steps fun steps => ⟨environment.lookup text, steps⟩)
  | calls + 1, value, steps => chainWithin limit (evaluateWithin calls) value [] steps

end

section

variable {limit : Nat} {environment : Environment} {call : Call} {calls : Nat}

/-- A waiting operator with the evaluation of its right operand. -/
def Waits.pending (limit : Nat) (environment : Environment) (entry : Waits) : Pending :=
  ⟨entry.1, entry.2.evaluate limit environment⟩

/-- The walk of an expression is its evaluation, followed by what is pending. -/
theorem walk_eq_evaluate_andThen
    (value : Expression)
    (pending : List Pending)
    (steps : Nat) :
    walk limit environment value pending steps =
      (value.evaluate limit environment steps).andThen (settle pending) := by
  rw [walk_eq_recurse_andThen, evaluate, walk_nil]

section

variable
  (answers : ∀ value : Expression, value.rightDepth < calls →
    ∀ steps, call value steps = some (value.evaluate limit environment steps))

include answers

/-- Where calls for the right operands succeed, applying what waits does what evaluation does. -/
theorem settleWithin_eq_some
    {waiting : List Waits}
    (shallow : ∀ entry ∈ waiting, entry.2.rightDepth < calls)
    (value : Value)
    (steps : Nat) :
    settleWithin call waiting value steps =
      some (settle (waiting.map (Waits.pending limit environment)) value steps) := by
  induction waiting generalizing value steps with
  | nil =>
      rfl
  | cons entry waiting inductionHypothesis =>
      rcases entry with ⟨operator, right⟩
      obtain ⟨rightShallow, others⟩ := List.forall_mem_cons.mp shallow
      rw [settleWithin, answers right rightShallow, List.map_cons, Waits.pending, settle,
        ← next?_some]
      refine congrArg (next? _) (funext fun found => funext fun steps => ?_)
      cases operator.apply value found with
      | ok joined =>
          exact inductionHypothesis others joined steps
      | error fault =>
          rfl

/-- A leaf is evaluated by a call, and what waits is applied after it. -/
theorem chainWithin_leaf
    (positive : 0 < calls)
    {value : Expression}
    (leaf : value.rightDepth = 0)
    {waiting : List Waits}
    (shallow : ∀ entry ∈ waiting, entry.2.rightDepth < calls)
    (steps : Nat) :
    chainWithin limit call value waiting steps =
      some (walk limit environment value (waiting.map (Waits.pending limit environment))
        steps) := by
  have called : chainWithin limit call value waiting steps =
      next? (call value steps) fun value steps => settleWithin call waiting value steps := by
    cases value with
    | literal | name =>
        rfl
    | binary operator left right span =>
        simp [rightDepth] at leaf
  rw [called, answers value (leaf ▸ positive), walk_eq_evaluate_andThen, ← next?_some]
  refine congrArg (next? _) (funext fun found => funext fun steps => ?_)
  exact settleWithin_eq_some answers shallow found steps

/--
Where calls for the leaf and the right operands succeed, a chain is evaluated.

The induction is on the expression with any operators waiting: one more waits for
each step down its left side.
-/
theorem chainWithin_eq_some
    (positive : 0 < calls)
    {value : Expression}
    (within : value.rightDepth ≤ calls)
    {waiting : List Waits}
    (shallow : ∀ entry ∈ waiting, entry.2.rightDepth < calls)
    (steps : Nat) :
    chainWithin limit call value waiting steps =
      some (walk limit environment value (waiting.map (Waits.pending limit environment))
        steps) := by
  induction value generalizing waiting steps with
  | literal | name =>
      exact chainWithin_leaf answers positive rfl shallow steps
  | binary operator left right span leftHypothesis rightHypothesis =>
      have leftWithin : left.rightDepth ≤ calls :=
        Nat.le_trans (Nat.le_max_left _ _) within
      have rightShallow : right.rightDepth < calls :=
        Nat.le_trans (Nat.le_max_right _ _) within
      rw [chainWithin, walk, tick]
      split
      · exact leftHypothesis leftWithin
          (List.forall_mem_cons.mpr ⟨rightShallow, shallow⟩) (steps + 1)
      · rfl

end

/--
Evaluation makes no more nested calls than steps into right operands, and one.

So with that many calls it has the same result as without a bound on them.
-/
theorem evaluateWithin_eq_some
    {value : Expression}
    (within : value.rightDepth < calls)
    (steps : Nat) :
    evaluateWithin limit environment calls value steps =
      some (value.evaluate limit environment steps) := by
  induction calls generalizing value steps with
  | zero =>
      exact absurd within (Nat.not_lt_zero _)
  | succ calls inductionHypothesis =>
      cases value with
      | literal | name =>
          rw [evaluateWithin, evaluate, walk_nil, recurse]
      | binary operator left right span =>
          have positive : 0 < calls := by
            have deep := Nat.le_max_right left.rightDepth (right.rightDepth + 1)
            rw [rightDepth] at within
            omega
          simp only [evaluateWithin]
          exact chainWithin_eq_some (fun value shallow => inductionHypothesis shallow) positive
            (Nat.le_of_lt_succ within) (by simp) steps

end

end Expression

end Bhasha
