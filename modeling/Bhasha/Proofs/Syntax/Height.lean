import Bhasha.Proofs.Rendering.Calls

namespace Bhasha

/-!
# The height of parsed expressions

Walks over an expression go as deep as the expression is high.  The limits of the
parser bound the height, but not by the operators that may be open at once: these
are counted along one chain, and a chain that is an operand has closed its own.
The bound here allows each of the four layers of operators its own chain inside
each pair of parentheses.
-/

open Grammar
open Reader

namespace Expression

/-- The number of expressions from an expression to its deepest leaf. -/
def height : Expression → Nat
  | literal .. | name .. => 1
  | binary _ left right _ => max left.height right.height + 1

theorem height_relabel (labels : Relabel) (value : Expression) :
    (value.relabel labels).height = value.height := by
  induction value with
  | literal | name =>
      rfl
  | binary operator left right span leftHypothesis rightHypothesis =>
      simp only [relabel, height, leftHypothesis, rightHypothesis]

theorem height_plus (value : Expression) (count : Nat) :
    (value.plus count).height = value.height + count := by
  induction count with
  | zero =>
      rfl
  | succ count inductionHypothesis =>
      have low : operand.height ≤ value.height + count := by
        have one : 1 ≤ value.height := by
          cases value <;> exact Nat.le_add_left _ _
        exact Nat.le_add_right_of_le one
      rw [plus, height, inductionHypothesis, Nat.max_eq_left low]
      rfl

end Expression

namespace Reader

variable {bounds : Bounds} {tokens : List Token}

/-- How high an expression may be that stands in some parentheses and blocks and is no chain. -/
def Bounds.reach (bounds : Bounds) (level : Nat) : Nat :=
  4 * bounds.operators * (bounds.nesting - level) + 1

theorem Bounds.reach_of_lt
    {level : Nat}
    (within : level < bounds.nesting) :
    bounds.reach level = bounds.reach (level + 1) + 4 * bounds.operators := by
  have deeper : bounds.nesting - level = bounds.nesting - (level + 1) + 1 := by
    omega
  rw [reach, reach, deeper, Nat.mul_succ]
  omega

/--
An admitted expression is no higher than what its parentheses hold, or it is a
chain, whose operators add to that: those open at its end, and for each tighter
layer as many as may be open.
-/
theorem Admits.height_le
    {level precedence before after : Nat} {value : Expression}
    (admits : Admits bounds tokens level precedence before after value)
    (positive : 1 ≤ precedence)
    (count : before ≤ bounds.operators) :
    value.height ≤ bounds.reach level ∨
      precedence ≤ 4 ∧
        value.height ≤ bounds.reach level + after + (4 - precedence) * bounds.operators := by
  induction admits with
  | @operand level precedence before token value member found =>
      have leaf : value.height = 1 := by
        cases isOperand_of_operand? found <;> rfl
      rw [leaf]
      exact .inl (Nat.le_add_left _ _)
  | @paren level precedence before after value within inner inductionHypothesis =>
      have ending := inner.after_le count
      have reach := bounds.reach_of_lt within
      rcases inductionHypothesis (Nat.le_refl _) count with low | ⟨-, chain⟩
      · exact .inl (by omega)
      · have layers : (4 - Layer.equality.precedence) * bounds.operators =
            3 * bounds.operators := rfl
        exact .inl (by omega)
  | @chain level precedence before middle after operator left right span loose leftAdmits within
      rightAdmits leftHypothesis rightHypothesis =>
      have tight : operator.precedence ≤ 4 := by
        cases operator <;> decide
      have ending := rightAdmits.after_le within
      have looser := Nat.mul_le_mul_right bounds.operators (Nat.sub_le_sub_left loose 4)
      refine .inr ⟨Nat.le_trans loose tight, ?_⟩
      have leftLow : left.height ≤
          bounds.reach level + middle + (4 - operator.precedence) * bounds.operators := by
        rcases leftHypothesis (Nat.le_trans positive loose) count with low | ⟨-, chain⟩ <;> omega
      have rightLow : right.height ≤
          bounds.reach level + (4 - operator.precedence) * bounds.operators := by
        rcases rightHypothesis (Nat.le_add_left _ _) within with low | ⟨inner, chain⟩
        · omega
        · -- One layer tighter, a chain has one layer less inside it.
          have layers : 4 - operator.precedence = 4 - (operator.precedence + 1) + 1 := by
            omega
          rw [layers, Nat.succ_mul]
          omega
      rw [Expression.height]
      omega

end Reader

/--
The limits of the parser bound the height of every expression of a program that is
parsed: in every pair of parentheses each layer of operators may add as many as may
be open at once.
-/
theorem Source.height_le_of_parse
    {source : Source} {program : Program}
    (parsed : source.parse = .ok program) :
    ∀ value ∈ program.expressions,
      value.height ≤ 4 * maxOperators * (maxNesting + 1) + 1 := by
  intro value member
  obtain ⟨level, before, after, depth, count, admits⟩ :=
    admitted_of_parseTokens parsed value member
  have ending := admits.after_le count
  have operators : Bounds.standard.operators = maxOperators := rfl
  have shallow : Bounds.standard.reach level ≤ 4 * maxOperators * maxNesting + 1 :=
    Nat.succ_le_succ (Nat.mul_le_mul_left _ (Nat.sub_le _ _))
  rw [Nat.mul_succ]
  rcases admits.height_le (Nat.le_refl _) count with low | ⟨-, chain⟩
  · omega
  · have layers : (4 - Layer.equality.precedence) * Bounds.standard.operators =
        3 * maxOperators := rfl
    omega

/-- A chain in parentheses that is itself the start of a chain is within the bound of heights. -/
theorem Source.height_le_grouped :
    ∃ program, (printCall (Render.groupedText maxOperators)).parse = .ok program ∧
      ∀ value ∈ program.expressions,
        value.height ≤ 4 * maxOperators * (maxNesting + 1) + 1 := by
  obtain ⟨program, parsed, -⟩ := parse_groupedText (by decide) (Nat.le_refl maxOperators)
  exact ⟨program, parsed, height_le_of_parse parsed⟩

/-- The same chain is higher than the operators that may be open at once and the leaf below them. -/
theorem Source.height_grouped :
    ∃ program, (printCall (Render.groupedText maxOperators)).parse = .ok program ∧
      ∃ value ∈ program.expressions, maxOperators + 1 < value.height := by
  obtain ⟨program, parsed, found, member, like⟩ :=
    parse_groupedText (by decide) (Nat.le_refl maxOperators)
  refine ⟨program, parsed, found, member, ?_⟩
  rw [← Expression.height_relabel .details, like, Expression.height_relabel,
    Expression.height_plus, Nat.add_comm]
  exact Nat.lt_succ_self _

namespace Expression

/-- A chain of as many operators as may be open, on top of another such chain. -/
def tower : Nat → Expression
  | 0 => operand
  | levels + 1 => (tower levels).plus maxOperators

theorem height_tower (levels : Nat) :
    (tower levels).height = levels * maxOperators + 1 := by
  induction levels with
  | zero =>
      rfl
  | succ levels inductionHypothesis =>
      rw [tower, height_plus, inductionHypothesis, Nat.succ_mul, Nat.add_right_comm]

end Expression

namespace Render

/-- The text of a tower, with parentheses around each chain below another. -/
def towerText : Nat → List Char
  | 0 => ['a']
  | levels + 1 => plusText (wrapped true (towerText levels)) maxOperators

/-- Each level of a tower nests by one, and its operators are closed where the next level starts. -/
theorem written_tower (levels : Nat) :
    ∃ layer spine peak, peak ≤ maxOperators ∧
      Written (towerText levels) layer (Expression.tower levels) spine levels peak := by
  induction levels with
  | zero =>
      exact ⟨_, 0, 0, Nat.zero_le _, .of_writable Expression.writable_operand⟩
  | succ levels inductionHypothesis =>
      obtain ⟨layer, spine, peak, few, written⟩ := inductionHypothesis
      exact ⟨_, _, _, Nat.max_le.mpr ⟨few, Nat.le_refl _⟩, written.plus_enclosed maxOperators⟩

end Render

/-- Every level of parentheses may add as many operators to the height as may be open at once. -/
theorem Source.exists_height
    {levels : Nat}
    (shallow : levels ≤ maxNesting) :
    ∃ source program, Source.parse source = .ok program ∧
      ∃ value ∈ program.expressions, value.height = levels * maxOperators + 1 := by
  obtain ⟨layer, spine, peak, few, written⟩ := Render.written_tower levels
  obtain ⟨program, parsed, like⟩ := written.parse_printCall shallow few
  obtain ⟨found, member, same⟩ := Program.mem_expressions_of_printed like
  refine ⟨_, program, parsed, found, member, ?_⟩
  rw [← Expression.height_relabel .details, same, Expression.height_relabel,
    Expression.height_tower]

end Bhasha
