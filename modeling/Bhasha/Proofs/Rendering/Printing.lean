import Bhasha.Proofs.Evaluation.Details
import Bhasha.Proofs.Rendering.Calls

namespace Bhasha

/-!
# Rendered expressions and the limits of the parser

The text of an expression that was parsed never nests too deep: it has only
parentheses that were there before.  But it may hold too many operators open at
once, as the parentheses that it leaves out closed the operators inside them.
-/

open Token
open Grammar
open Reader

/-- The operands that are tokens of a text are legible. -/
theorem legible_of_operand
    {text : String} {token : Token} {value : Expression}
    (member : token ∈ Token.scan text)
    (found : operand? token = some value) :
    value.Legible := by
  rcases token with ⟨kind, lexeme, span⟩
  cases isOperand_of_operand? found with
  | number =>
      trivial
  | string role =>
      obtain rfl : kind = .string := (Token.role_eq_string_iff _).mp role
      obtain ⟨taken, rest, spells⟩ := spells_of_mem_scan member nofun
      exact spells.noQuote
  | name role =>
      obtain rfl : kind = .identifier := (Token.role_eq_identifier_iff _).mp role
      obtain ⟨taken, rest, spells⟩ := spells_of_mem_scan member nofun
      exact IsIdentifier.of_spells spells

namespace Reader

variable {bounds : Bounds} {tokens : List Token}

/-- An expression whose leaves are legible is legible. -/
theorem Admits.legible
    {level precedence before after : Nat} {value : Expression}
    (admits : Admits bounds tokens level precedence before after value)
    (leaves : ∀ token ∈ tokens, ∀ operand, operand? token = some operand → operand.Legible) :
    value.Legible := by
  induction admits with
  | operand member found =>
      exact leaves _ member _ found
  | paren within inner inductionHypothesis =>
      exact inductionHypothesis
  | chain loose leftAdmits within rightAdmits leftHypothesis rightHypothesis =>
      exact ⟨leftHypothesis, rightHypothesis⟩

/-- An operand that needs parentheses binds less tightly than its place asks for. -/
theorem layer_lt_of_needsParens
    {operator : BinaryOperator} {isRight : Bool} {operand : Expression}
    (needed : Render.needsParens operator isRight operand = true) :
    (Render.layer operand).precedence < operator.precedence + isRight.toNat := by
  cases operand with
  | literal | name =>
      cases needed
  | binary inner left right span =>
      rw [Render.layer, Layer.precedence_of]
      cases isRight <;> simp [Render.needsParens] at needed ⊢ <;> omega

theorem enclosed_le
    {level nesting limit : Nat} {parens : Bool}
    (within : level + nesting ≤ limit)
    (deeper : parens = true → level + nesting < limit) :
    level + (nesting + parens.toNat) ≤ limit := by
  cases parens with
  | false =>
      exact within
  | true =>
      exact deeper rfl

/-- The text of an admitted expression has no more parentheses than were read around its parts. -/
theorem Admits.nesting_le
    {level precedence before after : Nat} {value : Expression}
    (admits : Admits bounds tokens level precedence before after value)
    (primary : precedence ≤ Layer.primary.precedence)
    (depth : level ≤ bounds.nesting) :
    level + Render.nesting value ≤ bounds.nesting ∧
      ((Render.layer value).precedence < precedence →
        level + Render.nesting value < bounds.nesting) := by
  induction admits with
  | @operand level precedence before token value member found =>
      have leaf : Render.nesting value = 0 ∧ Render.layer value = .primary := by
        cases isOperand_of_operand? found <;> exact ⟨rfl, rfl⟩
      rw [leaf.1, leaf.2]
      exact ⟨depth, fun loose => absurd primary (Nat.not_le.mpr loose)⟩
  | paren within inner inductionHypothesis =>
      have inside := (inductionHypothesis (Layer.le_primary _) within).1
      omega
  | @chain level precedence before middle after operator left right span loose leftAdmits within
      rightAdmits leftHypothesis rightHypothesis =>
      have tight : operator.precedence < Layer.primary.precedence := by
        rw [← Layer.precedence_of]
        exact Layer.of_lt_primary operator
      obtain ⟨leftWithin, leftDeeper⟩ := leftHypothesis (Nat.le_of_lt tight) depth
      obtain ⟨rightWithin, rightDeeper⟩ := rightHypothesis tight depth
      have leftFits := enclosed_le leftWithin fun needed =>
        leftDeeper (@layer_lt_of_needsParens operator false left needed)
      have rightFits := enclosed_le rightWithin fun needed =>
        rightDeeper (@layer_lt_of_needsParens operator true right needed)
      refine ⟨?_, fun looser => ?_⟩
      · rw [Render.nesting, ← Nat.add_max_add_left]
        exact Nat.max_le.mpr ⟨leftFits, rightFits⟩
      · rw [Render.layer, Layer.precedence_of] at looser
        exact absurd loose (Nat.not_le.mpr looser)

end Reader

/--
The text of an expression of a program that is parsed, put in a call of the print
statement, exceeds the limits only when more operators than the limit are open at
once in that text.

When the numbers of the expression are written by position, it does exceed the
limits then, and otherwise it is parsed as printing the same expression.
-/
theorem Source.printing_of_parse
    {source : Source} {program : Program}
    (parsed : source.parse = .ok program)
    {value : Expression}
    (member : value ∈ program.expressions) :
    Render.nesting value ≤ maxNesting ∧
      (Render.peak value ≤ maxOperators → ¬ (printing value).ExceedsLimits) ∧
        (value.Writable →
          (maxOperators < Render.peak value → (printing value).ExceedsLimits) ∧
            (Render.peak value ≤ maxOperators →
              ∃ found, (printing value).parse = .ok found ∧
                found.relabel .details = (Program.ofPrinted value).relabel .details)) := by
  obtain ⟨level, before, after, depth, -, admits⟩ := admitted_of_parseTokens parsed value member
  have legible : value.Legible :=
    admits.legible fun token member operand found => legible_of_operand member found
  have shallow : Render.nesting value ≤ maxNesting :=
    Nat.le_trans (Nat.le_add_left _ level) (admits.nesting_le (Layer.le_primary _) depth).1
  obtain ⟨within, beyond⟩ := exceedsLimits_printing legible shallow
  exact ⟨shallow, within, fun writable => ⟨beyond writable, parse_printing writable shallow⟩⟩

/-- A source with a difference of differences, of which one needs no parentheses. -/
def differences : Source := .ofText "print((a - b) - (c - d));"

/-- The expression of `differences`. -/
def difference : Expression :=
  let name (text : String) (column : Nat) : Expression := .name text (.point ⟨1, column⟩)
  .join .subtract (.join .subtract (name "a" 8) (name "b" 12))
    (.join .subtract (name "c" 18) (name "d" 22))

/-- The text of `difference` is parsed as printing it. -/
theorem Source.printing_difference :
    ∃ program, differences.parse = .ok program ∧ difference ∈ program.expressions ∧
      ∃ found, (printing difference).parse = .ok found ∧
        found.relabel .details = (Program.ofPrinted difference).relabel .details := by
  have first : (differences.parse.toOption.bind fun program => program.expressions.head?) =
      some difference := by
    decide +kernel
  have name (text : String) (scanned : Token.scan text =
      [⟨.identifier, text, .point .first⟩, Token.finish ⟨1, 2⟩]) : IsIdentifier text :=
    ⟨_, _, scanned⟩
  have writable : difference.Writable :=
    ⟨⟨name "a" (by decide +kernel), name "b" (by decide +kernel)⟩,
      name "c" (by decide +kernel), name "d" (by decide +kernel)⟩
  cases parsed : differences.parse with
  | error error =>
      rw [parsed] at first
      cases first
  | ok program =>
      rw [parsed] at first
      have member := List.mem_of_head? first
      exact ⟨program, rfl, member,
        ((printing_of_parse parsed member).2.2 writable).2 (by decide)⟩

/--
A sum with needless parentheses is parsed, and its text exceeds the limits.

The parentheses close as many operators as the limit allows, and the text of the
sum is one chain of all its operators.
-/
theorem Source.printing_grouped :
    ∃ program, (printCall (Render.groupedText maxOperators)).parse = .ok program ∧
      ∃ value ∈ program.expressions, (printing value).ExceedsLimits := by
  obtain ⟨program, parsed, found, member, like⟩ :=
    parse_groupedText (by decide) (Nat.le_refl maxOperators)
  refine ⟨program, parsed, found, member, ?_⟩
  have text : Render.expression found =
      Render.expression (Expression.operand.plus (maxOperators + 1)) := by
    unfold Render.expression
    rw [← Render.expressionTo_relabel .details found, like, Render.expressionTo_relabel]
  rw [printing, text]
  exact exceedsLimits_printing_sum (Nat.lt_succ_self _)

end Bhasha
