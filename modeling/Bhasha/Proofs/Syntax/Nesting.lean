import Bhasha.Proofs.Token.Order
import Bhasha.Syntax.Tree

namespace Bhasha

/-!
# Spans that nest

A tree is faithful to a text when the span of each part encloses those of its own
parts, one after the other, and the span of each leaf covers the text of the leaf.

While a tree is built, the spans of the parts that are not yet enclosed by a
larger one form a `Trail`, the latest first.  The last token reaches all of them,
so merging the span of any of them with that of the last token gives a span that
encloses all that came after it.
-/

namespace Span

/-- A span lies inside another. -/
def Within (inner outer : Span) : Prop :=
  outer.start ≤ inner.start ∧ inner.stop ≤ outer.stop

/-- A span ends before another starts. -/
def Before (first second : Span) : Prop :=
  first.stop < second.start

/-- A span encloses some spans, which lie inside it one after the other. -/
structure Encloses (outer : Span) (parts : List Span) : Prop where
  ordered : outer.start ≤ outer.stop
  within : ∀ part ∈ parts, part.Within outer
  apart : parts.Pairwise Before

/-- The text over a span is a word. -/
def Covers (text : List Char) (word : String) (span : Span) : Prop :=
  span.start ≤ span.stop ∧ span.slice text = word.toList

/-- A span neither starts nor ends before another. -/
def Reaches (last span : Span) : Prop :=
  span.start ≤ last.start ∧ span.stop ≤ last.stop

/-- A span lies between two positions. -/
structure Between (low past : Position) (span : Span) : Prop where
  after : low ≤ span.start
  ordered : span.start ≤ span.stop
  before : span.stop < past

theorem Encloses.sublist
    {outer : Span} {parts fewer : List Span}
    (encloses : outer.Encloses parts)
    (among : fewer.Sublist parts) :
    outer.Encloses fewer where
  ordered := encloses.ordered
  within part member := encloses.within part (among.subset member)
  apart := encloses.apart.sublist among

theorem merge_of_reaches
    {first last : Span}
    (reaches : last.Reaches first) :
    first.merge last = ⟨first.start, last.stop⟩ := by
  have starts : first.start.earlier last.start = first.start :=
    if_neg (not_lt_of_ge reaches.1)
  have stops : first.stop.later last.stop = last.stop := by
    rcases lt_or_eq_of_le reaches.2 with before | same
    · exact if_pos before
    · rw [Position.later, same, ite_self]
  rw [merge, starts, stops]

end Span

/-- Spans from the latest to the earliest, all between two positions. -/
def Descending (low : Position) : Position → List Span → Prop
  | past, [] => low ≤ past
  | past, span :: rest =>
      span.start ≤ span.stop ∧ span.stop < past ∧ Descending low span.start rest

namespace Descending

variable {low past next : Position} {spans : List Span}

theorem low_le
    (descending : Descending low past spans) :
    low ≤ past := by
  induction spans generalizing past with
  | nil =>
      exact descending
  | cons span rest inductionHypothesis =>
      obtain ⟨ordered, before, following⟩ := descending
      exact le_of_lt (lt_of_le_of_lt (le_trans (inductionHypothesis following) ordered) before)

theorem widen
    (descending : Descending low past spans)
    (later : past ≤ next) :
    Descending low next spans := by
  cases spans with
  | nil =>
      exact le_trans descending later
  | cons span rest =>
      obtain ⟨ordered, before, following⟩ := descending
      exact ⟨ordered, lt_of_lt_of_le before later, following⟩

/-- The earlier spans remain when the later ones are dropped. -/
theorem of_append
    {later : List Span}
    (descending : Descending low past (later ++ spans)) :
    Descending low past spans := by
  induction later generalizing past with
  | nil =>
      exact descending
  | cons span later inductionHypothesis =>
      obtain ⟨ordered, before, following⟩ := descending
      exact (inductionHypothesis following).widen (le_of_lt (lt_of_le_of_lt ordered before))

theorem between
    (descending : Descending low past spans) :
    ∀ span ∈ spans, span.Between low past := by
  induction spans generalizing past with
  | nil =>
      intro span member
      cases member
  | cons first rest inductionHypothesis =>
      obtain ⟨ordered, before, following⟩ := descending
      have starts : first.start ≤ past := le_of_lt (lt_of_le_of_lt ordered before)
      intro span member
      rcases List.mem_cons.mp member with rfl | member
      · exact ⟨following.low_le, ordered, before⟩
      · obtain ⟨after, spanOrdered, spanBefore⟩ := inductionHypothesis following span member
        exact ⟨after, spanOrdered, lt_of_lt_of_le spanBefore starts⟩

/-- Spans in descending order are one before the other when they are read backwards. -/
theorem pairwise_reverse
    (descending : Descending low past spans) :
    spans.reverse.Pairwise Span.Before := by
  rw [List.pairwise_reverse]
  induction spans generalizing past with
  | nil =>
      exact .nil
  | cons first rest inductionHypothesis =>
      obtain ⟨ordered, before, following⟩ := descending
      exact .cons (fun span member => (following.between span member).before)
        (inductionHypothesis following)

end Descending

/-- Spans in descending order that a last one reaches. -/
structure Trail (low past : Position) (last : Span) (spans : List Span) : Prop where
  descending : Descending low past spans
  reached : ∀ span ∈ spans, last.Reaches span ∧ last.stop < past

namespace Descending

variable {low past next : Position} {token : Span} {spans : List Span}

/-- A token after some spans reaches all of them. -/
theorem step
    (descending : Descending low past spans)
    (between : token.Between past next) :
    Trail low next token spans where
  descending :=
    descending.widen
      (le_of_lt (lt_of_le_of_lt (le_trans between.after between.ordered) between.before))
  reached span member := by
    obtain ⟨after, ordered, before⟩ := descending.between span member
    have beforeToken : span.stop ≤ token.start := le_trans (le_of_lt before) between.after
    exact ⟨⟨le_trans ordered beforeToken, le_trans beforeToken between.ordered⟩, between.before⟩

/-- A token after some spans is the last of a trail with them. -/
theorem push
    (descending : Descending low past spans)
    (between : token.Between past next) :
    Trail low next token (token :: spans) where
  descending := ⟨between.ordered, between.before, descending.widen between.after⟩
  reached span member := by
    rcases List.mem_cons.mp member with rfl | member
    · exact ⟨⟨le_refl _, le_refl _⟩, between.before⟩
    · exact (descending.step between).reached span member

end Descending

namespace Trail

variable {low past : Position} {last : Span} {spans : List Span}

theorem of_append
    {later : List Span}
    (trail : Trail low past last (later ++ spans)) :
    Trail low past last spans where
  descending := trail.descending.of_append
  reached span member := trail.reached span (List.mem_append_right later member)

/-- A span of the trail, merged with the last, takes the place of all that came after it. -/
theorem merge
    (later : List Span)
    {first : Span}
    (trail : Trail low past last (later ++ first :: spans)) :
    Trail low past last (first.merge last :: spans) ∧
      (first.merge last).Encloses (first :: later.reverse) := by
  obtain ⟨reachesFirst, before⟩ := trail.reached first (by simp)
  obtain ⟨ordered, -, following⟩ := trail.descending.of_append
  have whole : first.start ≤ last.stop := le_trans ordered reachesFirst.2
  have apart : (first :: later.reverse).Pairwise Span.Before := by
    have all := trail.descending.pairwise_reverse
    rw [List.reverse_append, List.reverse_cons, List.append_assoc] at all
    exact (List.pairwise_append.mp all).2.1
  rw [Span.merge_of_reaches reachesFirst]
  refine ⟨⟨⟨whole, before, following⟩, ?_⟩, whole, ?_, apart⟩
  · intro span member
    rcases List.mem_cons.mp member with rfl | member
    · exact ⟨⟨reachesFirst.1, le_refl _⟩, before⟩
    · exact trail.reached span (List.mem_append_right later (List.mem_cons_of_mem first member))
  · intro part member
    rcases List.mem_cons.mp member with rfl | member
    · exact ⟨le_refl _, reachesFirst.2⟩
    · have afterFirst : first.stop < part.start := (List.pairwise_cons.mp apart).1 part member
      have reachesPart := trail.reached part
        (List.mem_append_left _ (List.mem_reverse.mp member))
      exact ⟨le_of_lt (lt_of_le_of_lt ordered afterFirst), reachesPart.1.2⟩

/-- The two latest spans merge to one that encloses both. -/
theorem join
    {right left : Span}
    (trail : Trail low past last (right :: left :: spans)) :
    Trail low past last (left.merge right :: spans) ∧
      (left.merge right).Encloses [left, right] := by
  obtain ⟨rightOrdered, rightBefore, following⟩ := trail.descending
  have inner : Trail low past right (right :: left :: spans) :=
    following.push ⟨le_refl _, rightOrdered, rightBefore⟩
  obtain ⟨merged, encloses⟩ := inner.merge [right]
  have reachesLeft : right.Reaches left := (inner.reached left (by simp)).1
  refine ⟨⟨merged.descending, ?_⟩, encloses⟩
  rw [Span.merge_of_reaches reachesLeft]
  have reachesRight := trail.reached right List.mem_cons_self
  intro span member
  rcases List.mem_cons.mp member with rfl | member
  · exact ⟨⟨le_trans reachesLeft.1 reachesRight.1.1, reachesRight.1.2⟩, reachesRight.2⟩
  · exact trail.reached span (by simp [member])

end Trail

/-! Trees whose spans are those of a text -/

namespace Name

def Faithful (text : List Char) (name : Name) : Prop :=
  name.span.Covers text name.text

end Name

namespace Expression

/-- The leaves cover their texts, and the span of each operation encloses its operands. -/
def Faithful (text : List Char) : Expression → Prop
  | literal _ raw span => span.Covers text raw
  | name word span => span.Covers text word
  | binary _ left right span =>
      left.Faithful text ∧ right.Faithful text ∧ span.Encloses [left.span, right.span]

end Expression

mutual

/-- The span of each part encloses those of its own parts in their order. -/
def Statement.Faithful (text : List Char) : Statement → Prop
  | .declare _ name value span =>
      name.Faithful text ∧ value.Faithful text ∧ span.Encloses [name.span, value.span]
  | .assign name value span =>
      name.Faithful text ∧ value.Faithful text ∧ span.Encloses [name.span, value.span]
  | .print value span => value.Faithful text ∧ span.Encloses [value.span]
  | .ifThen condition consequent span =>
      condition.Faithful text ∧ consequent.Faithful text ∧
        span.Encloses [condition.span, consequent.span]
  | .ifElse condition consequent alternate span =>
      condition.Faithful text ∧ consequent.Faithful text ∧ alternate.Faithful text ∧
        span.Encloses [condition.span, consequent.span, alternate.span]
  | .loop condition body span =>
      condition.Faithful text ∧ body.Faithful text ∧ span.Encloses [condition.span, body.span]

def Block.Faithful (text : List Char) : Block → Prop
  | .mk body span => AllFaithful text body ∧ span.Encloses (body.map Statement.span)

def AllFaithful (text : List Char) : List Statement → Prop
  | [] => True
  | statement :: rest => statement.Faithful text ∧ AllFaithful text rest

end

/-- The statements of a program are faithful, and its span encloses them in their order. -/
def Program.Faithful (text : List Char) (program : Program) : Prop :=
  AllFaithful text program.body ∧ program.span.Encloses (program.body.map Statement.span)

theorem allFaithful_iff {text : List Char} {body : List Statement} :
    AllFaithful text body ↔ ∀ statement ∈ body, statement.Faithful text := by
  induction body with
  | nil =>
      simp [AllFaithful]
  | cons statement rest inductionHypothesis =>
      rw [AllFaithful, inductionHypothesis, List.forall_mem_cons]

end Bhasha
