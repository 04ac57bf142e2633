import Bhasha.Syntax.Tree

namespace Bhasha

/-!
# Trees without the details of their text

The spans of a tree, the texts of its literals and the types of its declarations
have no meaning when the program runs.  A `Relabel` says what becomes of these
details; two trees that are equal after a relabelling differ in nothing but the
details that it makes equal.
-/

/-- What becomes of the spans, the literal texts and the declared types of a tree. -/
structure Relabel where
  span : Span → Span
  raw : String → String
  type : DeclaredType → DeclaredType

namespace Relabel

/-- Spans are forgotten, and nothing else is. -/
def spans : Relabel where
  span := fun _ => Span.point Position.first
  raw := id
  type := id

/-- Spans, texts of literals and declared types are forgotten. -/
def details : Relabel where
  span := fun _ => Span.point Position.first
  raw := fun _ => ""
  type := fun _ => .integer

/-- Spans and declared types are forgotten, and nothing else is. -/
def plain : Relabel where
  span := fun _ => Span.point Position.first
  raw := id
  type := fun _ => .integer

/-- One relabelling after another. -/
def after (second first : Relabel) : Relabel where
  span := second.span ∘ first.span
  raw := second.raw ∘ first.raw
  type := second.type ∘ first.type

@[simp] theorem details_after_spans : details.after spans = details :=
  rfl

end Relabel

namespace Name

/-- A name with another span. -/
def relabel (labels : Relabel) (name : Name) : Name :=
  ⟨name.text, labels.span name.span⟩

end Name

namespace Expression

/-- An expression with other details. -/
def relabel (labels : Relabel) : Expression → Expression
  | literal value raw span => literal value (labels.raw raw) (labels.span span)
  | name text span => name text (labels.span span)
  | binary operator left right span =>
      binary operator (left.relabel labels) (right.relabel labels) (labels.span span)

/-- Relabelling twice is relabelling once. -/
theorem relabel_relabel
    (second first : Relabel)
    (value : Expression) :
    (value.relabel first).relabel second = value.relabel (second.after first) := by
  induction value with
  | literal value raw span =>
      rfl
  | name text span =>
      rfl
  | binary operator left right span leftHypothesis rightHypothesis =>
      simp only [relabel, leftHypothesis, rightHypothesis]
      rfl

end Expression

mutual

/-- A statement with other details. -/
def Statement.relabel (labels : Relabel) : Statement → Statement
  | .declare type name value span =>
      .declare (labels.type type) (name.relabel labels) (value.relabel labels) (labels.span span)
  | .assign name value span =>
      .assign (name.relabel labels) (value.relabel labels) (labels.span span)
  | .print value span => .print (value.relabel labels) (labels.span span)
  | .ifThen condition consequent span =>
      .ifThen (condition.relabel labels) (consequent.relabel labels) (labels.span span)
  | .ifElse condition consequent alternate span =>
      .ifElse (condition.relabel labels) (consequent.relabel labels) (alternate.relabel labels)
        (labels.span span)
  | .loop condition body span =>
      .loop (condition.relabel labels) (body.relabel labels) (labels.span span)

/-- A block with other details. -/
def Block.relabel (labels : Relabel) : Block → Block
  | .mk body span => .mk (relabelAll labels body) (labels.span span)

/-- Statements with other details. -/
def relabelAll (labels : Relabel) : List Statement → List Statement
  | [] => []
  | statement :: rest => statement.relabel labels :: relabelAll labels rest

end

mutual

theorem Statement.relabel_relabel
    (second first : Relabel) :
    ∀ statement : Statement,
      (statement.relabel first).relabel second = statement.relabel (second.after first)
  | .declare type name value span => by
      simp only [Statement.relabel, Expression.relabel_relabel]
      rfl
  | .assign name value span => by
      simp only [Statement.relabel, Expression.relabel_relabel]
      rfl
  | .print value span => by
      simp only [Statement.relabel, Expression.relabel_relabel]
      rfl
  | .ifThen condition consequent span => by
      simp only [Statement.relabel, Expression.relabel_relabel,
        Block.relabel_relabel second first consequent]
      rfl
  | .ifElse condition consequent alternate span => by
      simp only [Statement.relabel, Expression.relabel_relabel,
        Block.relabel_relabel second first consequent,
        Block.relabel_relabel second first alternate]
      rfl
  | .loop condition body span => by
      simp only [Statement.relabel, Expression.relabel_relabel,
        Block.relabel_relabel second first body]
      rfl

theorem Block.relabel_relabel
    (second first : Relabel) :
    ∀ block : Block,
      (block.relabel first).relabel second = block.relabel (second.after first)
  | .mk body span => by
      simp only [Block.relabel, relabelAll_relabelAll second first body]
      rfl

theorem relabelAll_relabelAll
    (second first : Relabel) :
    ∀ body : List Statement,
      relabelAll second (relabelAll first body) = relabelAll (second.after first) body
  | [] => by
      simp only [relabelAll]
  | statement :: rest => by
      simp only [relabelAll, Statement.relabel_relabel second first statement,
        relabelAll_relabelAll second first rest]

end

/-- A program with other details. -/
def Program.relabel (labels : Relabel) (program : Program) : Program :=
  ⟨relabelAll labels program.body, labels.span program.span⟩

/-- Trees that differ in their spans only differ in details only. -/
theorem relabelAll_details_of_spans
    {first second : List Statement}
    (like : relabelAll .spans first = relabelAll .spans second) :
    relabelAll .details first = relabelAll .details second := by
  have relabelled := congrArg (relabelAll .details) like
  simpa only [relabelAll_relabelAll, Relabel.details_after_spans] using relabelled

/-- Programs that differ in their spans only differ in details only. -/
theorem Program.relabel_details_of_spans
    {first second : Program}
    (like : first.relabel .spans = second.relabel .spans) :
    first.relabel .details = second.relabel .details := by
  simp only [Program.relabel, Program.mk.injEq] at like ⊢
  exact ⟨relabelAll_details_of_spans like.1, rfl⟩

end Bhasha
