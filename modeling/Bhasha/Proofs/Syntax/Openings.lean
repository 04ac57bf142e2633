import Bhasha.Proofs.Syntax.Run

namespace Bhasha

open Grammar

/-!
# What tokens leave open

The blocks and the grouping parentheses that are open after some tokens can be
counted on the tokens alone: a parenthesis after the word of a print statement, a
conditional or a loop belongs to the statement and groups nothing.  A place that
a reader comes to has as many open, and a reader goes beyond its nesting bound
only with a token after which more are open than the bound says.
-/

/-- A parenthesis after this word belongs to the statement that the word starts. -/
def Keyword.heads : Keyword → Bool
  | .print | .conditional | .loop => true
  | .integer | .float | .string | .alternative | .function | .result | .var => false

/-- The open blocks and grouping parentheses, and whether the next parenthesis is of a statement. -/
structure Openings where
  blocks : Nat
  groupings : Nat
  headed : Bool
  deriving Repr, DecidableEq

namespace Openings

/-- Nothing is open. -/
def none : Openings := ⟨0, 0, false⟩

/-- What is open after one more token. -/
def next (openings : Openings) (token : Token) : Openings :=
  match token.role with
  | .keyword keyword => { openings with headed := keyword.heads }
  | .openParen =>
      if openings.headed then { openings with headed := false }
      else { openings with groupings := openings.groupings + 1 }
  | .closeParen => { openings with groupings := openings.groupings - 1 }
  | .openBrace => { openings with blocks := openings.blocks + 1 }
  | .closeBrace => { openings with blocks := openings.blocks - 1 }
  | _ => openings

/-- What is open after some tokens. -/
def after (tokens : List Token) : Openings := tokens.foldl next none

/-- How many blocks and grouping parentheses are open. -/
def depth (openings : Openings) : Nat := openings.blocks + openings.groupings

theorem after_append (first second : List Token) :
    after (first ++ second) = second.foldl next (after first) :=
  List.foldl_append

end Openings

namespace Reader

/-- The grouping parentheses that are open where something is expected. -/
def Expecting.groupings : Expecting → Nat
  | operand _ waiting | operator _ waiting _ _ => Waiting.parens waiting
  | statement | alternate .. | name .. | assign _ | openParen _ | endOfPrint .. | openBrace _
  | tooDeep => 0

/-- A parenthesis of a statement is expected. -/
def Expecting.headed : Expecting → Bool
  | openParen _ => true
  | statement | alternate .. | name .. | assign _ | operand .. | operator .. | endOfPrint ..
  | openBrace _ | tooDeep => false

/-- What is open at a place. -/
def State.openings (state : State) : Openings :=
  ⟨state.blocks.length, state.expecting.groupings, state.expecting.headed⟩

theorem Starts.openings
    {blocks : List OpenBlock} {body : List Statement} {token : Token} {next : State}
    (starts : Starts blocks body token next) :
    next.openings = Openings.next ⟨blocks.length, 0, false⟩ token := by
  cases starts with
  | print role | conditional role | loop role | assign role =>
      simp only [Openings.next, role]
      rfl
  | @declare keyword type role declared =>
      cases keyword <;> cases declared <;> simp only [Openings.next, role] <;> rfl
  | @close block outer role inside =>
      rcases block with ⟨owner, start, before⟩
      simp only [Openings.next, role, inside]
      cases owner <;> rfl

/-- A move opens and closes what its token does, unless it goes beyond the nesting bound. -/
theorem Move.openings
    {bounds : Bounds} {state next : State} {token : Token}
    (moved : Move bounds state token next)
    (reachable : next.Reachable) :
    next.openings = state.openings.next token := by
  cases moved with
  | start starts | noAlternative starts =>
      exact starts.openings
  | operand found =>
      cases isOperand_of_operand? found with
      | number role | string role | name role =>
          simp only [Openings.next, role]
          rfl
  | paren role within =>
      simp only [Openings.next, role, State.openings, Expecting.groupings, Waiting.parens_paren]
      rfl
  | operator role joined within =>
      simp only [Openings.next, role, State.openings, Expecting.groupings,
        Waiting.parens_operand, parens_settle joined]
      rfl
  | closeParen role joined =>
      have closed := parens_settle joined
      rw [Waiting.parens_paren] at closed
      simp only [Openings.next, role, State.openings, Expecting.groupings, ← closed]
      rfl
  | ends joined ended =>
      have closed := parens_eq_zero_of_settle joined
      cases ended with
      | declare role | assign role | print role | conditional role | loop role =>
          simp only [Openings.next, role, State.openings, Expecting.groupings, closed]
          rfl
  | alternative role | name role | assign role | openParen role | endOfPrint role
  | openBrace role within =>
      simp only [Openings.next, role]
      rfl
  | parenTooDeep | braceTooDeep =>
      exact reachable.elim

/-- A move goes beyond the nesting bound only when its token opens more than the bound says. -/
theorem Move.reachable_of_depth
    {bounds : Bounds} {state next : State} {token : Token}
    (moved : Move bounds state token next)
    (shallow : (state.openings.next token).depth ≤ bounds.nesting) :
    next.Reachable := by
  cases moved with
  | start starts | noAlternative starts =>
      cases starts with
      | @close block outer =>
          rcases block with ⟨owner, start, before⟩
          cases owner <;> trivial
      | print | declare | conditional | loop | assign =>
          trivial
  | ends joined ended =>
      cases ended <;> trivial
  | parenTooDeep role beyond | braceTooDeep role beyond =>
      simp only [Openings.next, role] at shallow
      exact absurd shallow (Nat.not_le.mpr (Nat.lt_succ_of_le beyond))
  | alternative | name | assign | openParen | operand | paren | operator | closeParen
  | endOfPrint | openBrace =>
      trivial

/-- A run opens and closes what its tokens do. -/
theorem State.openings_of_steps
    {bounds : Bounds} {state place : State} {items : List Token}
    (run : state.steps bounds items = .ok place)
    (reachable : place.Reachable) :
    place.openings = items.foldl Openings.next state.openings := by
  induction items generalizing state with
  | nil =>
      cases run
      rfl
  | cons token rest inductionHypothesis =>
      obtain ⟨next, moved, run⟩ := State.steps_cons_eq_ok_iff.mp run
      rw [List.foldl_cons, ← moved.openings (State.reachable_of_steps run reachable)]
      exact inductionHypothesis run

/-- A run stays within the nesting bound when no tokens at its start leave more open. -/
theorem State.reachable_of_depth
    {bounds : Bounds} {state place : State} {items : List Token}
    (run : state.steps bounds items = .ok place)
    (reachable : state.Reachable)
    (shallow : ∀ part, part <+: items →
      (part.foldl Openings.next state.openings).depth ≤ bounds.nesting) :
    place.Reachable := by
  induction items generalizing state with
  | nil =>
      cases run
      exact reachable
  | cons token rest inductionHypothesis =>
      obtain ⟨next, moved, run⟩ := State.steps_cons_eq_ok_iff.mp run
      have nextReachable : next.Reachable :=
        moved.reachable_of_depth (shallow [token] (by simp))
      refine inductionHypothesis run nextReachable fun part inside => ?_
      rw [moved.openings nextReachable]
      exact shallow (token :: part) (List.cons_prefix_cons.mpr ⟨rfl, inside⟩)

end Reader

end Bhasha
