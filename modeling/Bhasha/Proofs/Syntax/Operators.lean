import Bhasha.Proofs.Syntax.Admission

namespace Bhasha

open Grammar

/-!
# The operators of the expressions of a program

Every statement has one expression of its own, and these are the roots of a
program.  While a root is read, the operators read of it are those of the operands
that wait and of the operand that is complete; no more of them can be open.  What
is read of a program stays part of the program, so an expression that is under way
has no more operators than the largest root of the program that is read in the end.
-/

namespace Expression

/-- How many operators an expression has. -/
def operators : Expression → Nat
  | literal .. | name .. => 0
  | binary _ left right _ => left.operators + right.operators + 1

theorem operators_relabel (labels : Relabel) (value : Expression) :
    (value.relabel labels).operators = value.operators := by
  induction value with
  | literal | name =>
      rfl
  | binary operator left right span leftHypothesis rightHypothesis =>
      simp only [relabel, operators, leftHypothesis, rightHypothesis]

end Expression

mutual

/-- The expressions of a statement and of the statements inside it. -/
def Statement.roots : Statement → List Expression
  | .declare _ _ value _ | .assign _ value _ | .print value _ => [value]
  | .ifThen condition consequent _ => condition :: consequent.roots
  | .ifElse condition consequent alternate _ =>
      condition :: (consequent.roots ++ alternate.roots)
  | .loop condition body _ => condition :: body.roots

/-- The expressions of the statements inside a block. -/
def Block.roots : Block → List Expression
  | .mk body _ => rootsAll body

/-- The expressions of some statements and of the statements inside them. -/
def rootsAll : List Statement → List Expression
  | [] => []
  | statement :: rest => statement.roots ++ rootsAll rest

end

/-- The expressions of the statements of a program, those inside blocks included. -/
def Program.roots (program : Program) : List Expression :=
  rootsAll program.body

theorem rootsAll_eq_flatMap (body : List Statement) :
    rootsAll body = body.flatMap Statement.roots := by
  induction body with
  | nil =>
      rfl
  | cons statement rest inductionHypothesis =>
      rw [rootsAll, inductionHypothesis, List.flatMap_cons]

mutual

theorem Statement.roots_relabel (labels : Relabel) :
    ∀ statement : Statement,
      (statement.relabel labels).roots = statement.roots.map (Expression.relabel labels)
  | .declare .. | .assign .. | .print .. => rfl
  | .ifThen _ consequent _ => by
      simp only [Statement.relabel, Statement.roots, List.map_cons,
        Block.roots_relabel labels consequent]
  | .ifElse _ consequent alternate _ => by
      simp only [Statement.relabel, Statement.roots, List.map_cons, List.map_append,
        Block.roots_relabel labels consequent, Block.roots_relabel labels alternate]
  | .loop _ body _ => by
      simp only [Statement.relabel, Statement.roots, List.map_cons,
        Block.roots_relabel labels body]

theorem Block.roots_relabel (labels : Relabel) :
    ∀ block : Block, (block.relabel labels).roots = block.roots.map (Expression.relabel labels)
  | .mk body _ => rootsAll_relabelAll labels body

theorem rootsAll_relabelAll (labels : Relabel) :
    ∀ body : List Statement,
      rootsAll (relabelAll labels body) = (rootsAll body).map (Expression.relabel labels)
  | [] => rfl
  | statement :: rest => by
      simp only [relabelAll, rootsAll, List.map_append, Statement.roots_relabel labels statement,
        rootsAll_relabelAll labels rest]

end

/-- No expression of some has more operators than a number says. -/
def Sparing (limit : Nat) (values : List Expression) : Prop :=
  ∀ value ∈ values, value.operators ≤ limit

namespace Sparing

variable {limit : Nat}

@[simp] theorem nil : Sparing limit [] := by
  simp [Sparing]

@[simp] theorem cons_iff {value : Expression} {values : List Expression} :
    Sparing limit (value :: values) ↔ value.operators ≤ limit ∧ Sparing limit values :=
  List.forall_mem_cons

@[simp] theorem append_iff {first second : List Expression} :
    Sparing limit (first ++ second) ↔ Sparing limit first ∧ Sparing limit second :=
  List.forall_mem_append

@[simp] theorem rootsAll_reverse_iff {body : List Statement} :
    Sparing limit (rootsAll body.reverse) ↔ Sparing limit (rootsAll body) := by
  simp [Sparing, rootsAll_eq_flatMap]

/-- Statements that differ in their spans only have as many operators. -/
theorem of_relabelAll
    {labels : Relabel} {first second : List Statement}
    (like : relabelAll labels first = relabelAll labels second)
    (sparing : Sparing limit (rootsAll second)) :
    Sparing limit (rootsAll first) := by
  intro value member
  have relabelled : value.relabel labels ∈ (rootsAll first).map (Expression.relabel labels) :=
    List.mem_map_of_mem member
  rw [← rootsAll_relabelAll, like, rootsAll_relabelAll] at relabelled
  obtain ⟨other, otherMember, same⟩ := List.mem_map.mp relabelled
  rw [← Expression.operators_relabel labels value, ← same, Expression.operators_relabel]
  exact sparing other otherMember

end Sparing

namespace Reader

/-- The operators that are read of the operands that wait. -/
def Waiting.operators : List Waiting → Nat
  | [] => 0
  | .operand left _ _ :: waiting => left.operators + 1 + operators waiting
  | .paren _ :: waiting => operators waiting

/-- Joining operands keeps their operators. -/
theorem operators_settle
    {precedence : Nat} {waiting settled : List Waiting} {value joined : Expression}
    {opened before : Nat}
    (settles : settle precedence waiting value opened = (settled, joined, before)) :
    Waiting.operators settled + joined.operators =
      Waiting.operators waiting + value.operators := by
  refine settle_keeps
    (motive := fun rest whole _ => Waiting.operators rest + whole.operators =
      Waiting.operators waiting + value.operators)
    settles ?_ rfl
  intro left operator count rest whole opened kept
  simp only [Waiting.operators, Expression.join, Expression.operators] at kept ⊢
  omega

/-- An expression opens no more operators than it has. -/
theorem Admits.after_le_add
    {bounds : Bounds} {tokens : List Token}
    {level precedence before after : Nat} {value : Expression}
    (admits : Admits bounds tokens level precedence before after value) :
    after ≤ before + value.operators := by
  induction admits with
  | operand member found =>
      exact Nat.le_add_right _ _
  | paren within inner inductionHypothesis =>
      exact Nat.le_add_right _ _
  | chain loose leftAdmits within rightAdmits leftHypothesis rightHypothesis =>
      rw [Expression.operators]
      omega

/-- No more operators are open than are read of the operands that wait. -/
theorem Pending.opened_le
    {bounds : Bounds} {tokens : List Token} {level : Nat} {waiting : List Waiting}
    (pending : Pending bounds tokens level waiting) :
    Waiting.opened waiting ≤ Waiting.operators waiting := by
  induction pending with
  | nil =>
      exact Nat.le_refl _
  | operand outer below admits within inductionHypothesis =>
      have open_le := admits.after_le_add
      rw [Waiting.opened_operand, Waiting.operators]
      omega
  | paren outer within inductionHypothesis =>
      exact inductionHypothesis

/-- The expressions of statements that a block belongs to. -/
def Owner.roots : Owner → List Expression
  | consequent _ condition | loop _ condition => [condition]
  | alternate _ condition first => condition :: first.roots

/-- The expressions of statements that are complete where something is expected. -/
def Expecting.roots : Expecting → List Expression
  | alternate _ condition consequent => condition :: consequent.roots
  | endOfPrint _ value => [value]
  | openBrace owner => owner.roots
  | statement | name .. | assign _ | openParen _ | operand .. | operator .. | tooDeep => []

/-- The operators that are read of the expression that is under way. -/
def Expecting.operators : Expecting → Nat
  | operand _ waiting => Waiting.operators waiting
  | operator _ waiting value _ => Waiting.operators waiting + value.operators
  | statement | alternate .. | name .. | assign _ | openParen _ | endOfPrint .. | openBrace _
  | tooDeep => 0

/-- The expressions of the statements before and around some blocks. -/
def rootsAround : List OpenBlock → List Expression
  | [] => []
  | block :: outer => block.owner.roots ++ (rootsAll block.before ++ rootsAround outer)

/-- No expression that is read or under way has more operators than a number says. -/
structure State.Sparing (limit : Nat) (state : State) : Prop where
  underWay : state.expecting.operators ≤ limit
  expecting : Bhasha.Sparing limit state.expecting.roots
  body : Bhasha.Sparing limit (rootsAll state.body)
  blocks : Bhasha.Sparing limit (rootsAround state.blocks)

theorem Owner.roots_complete (owner : Owner) (block : Block) (last : Span) :
    (owner.complete block last).roots = owner.roots ++ block.roots := by
  cases owner <;> rfl

theorem State.sparing_of_afterBlock
    {limit : Nat} {blocks : List OpenBlock} {before : List Statement} {owner : Owner}
    {block : Block} {last : Span}
    (sparing : (State.afterBlock blocks before owner block last).Sparing limit) :
    Bhasha.Sparing limit owner.roots ∧ Bhasha.Sparing limit block.roots ∧
      Bhasha.Sparing limit (rootsAll before) ∧ Bhasha.Sparing limit (rootsAround blocks) := by
  obtain ⟨-, expecting, body, around⟩ := sparing
  cases owner with
  | consequent start condition =>
      simp only [State.afterBlock, Expecting.roots, Sparing.cons_iff] at expecting
      exact ⟨by simpa [Owner.roots] using expecting.1, expecting.2, body, around⟩
  | alternate | loop =>
      simp only [State.afterBlock, rootsAll, Owner.roots_complete, Sparing.append_iff] at body
      exact ⟨body.1.1, body.1.2, body.2, around⟩

theorem Starts.sparing
    {limit : Nat} {blocks : List OpenBlock} {body : List Statement} {token : Token} {next : State}
    (starts : Starts blocks body token next)
    (sparing : next.Sparing limit) :
    Bhasha.Sparing limit (rootsAll body) ∧ Bhasha.Sparing limit (rootsAround blocks) := by
  cases starts with
  | print | declare | conditional | loop | assign =>
      exact ⟨sparing.body, sparing.blocks⟩
  | close role inside =>
      obtain ⟨owner, inner, before, around⟩ := State.sparing_of_afterBlock sparing
      rw [inside, rootsAround]
      simp only [Block.roots, Sparing.rootsAll_reverse_iff] at inner
      exact ⟨inner, by simp [owner, before, around]⟩

theorem Ends.sparing
    {limit : Nat} {blocks : List OpenBlock} {body : List Statement} {token : Token}
    {value : Expression} {heading : Heading} {next : State}
    (ended : Ends blocks body value token heading next)
    (sparing : next.Sparing limit) :
    value.operators ≤ limit ∧ Bhasha.Sparing limit (rootsAll body) ∧
      Bhasha.Sparing limit (rootsAround blocks) := by
  obtain ⟨-, expecting, bodySparing, around⟩ := sparing
  cases ended with
  | declare | assign =>
      simp only [rootsAll, Statement.roots, List.singleton_append, Sparing.cons_iff] at bodySparing
      exact ⟨bodySparing.1, bodySparing.2, around⟩
  | print | conditional | loop =>
      simp only [Expecting.roots, Owner.roots, Sparing.cons_iff] at expecting
      exact ⟨expecting.1, bodySparing, around⟩

/-- A move loses nothing that was read, unless it goes beyond the nesting bound. -/
theorem Move.sparing
    {bounds : Bounds} {limit : Nat} {state next : State} {token : Token}
    (moved : Move bounds state token next)
    (reachable : next.Reachable)
    (sparing : next.Sparing limit) :
    state.Sparing limit := by
  cases moved with
  | start starts =>
      obtain ⟨body, around⟩ := starts.sparing sparing
      exact ⟨Nat.zero_le _, Sparing.nil, body, around⟩
  | noAlternative starts =>
      obtain ⟨body, around⟩ := starts.sparing sparing
      simp only [rootsAll, Statement.roots, Sparing.append_iff] at body
      exact ⟨Nat.zero_le _, body.1, body.2, around⟩
  | alternative role =>
      exact ⟨Nat.zero_le _, sparing.expecting, sparing.body, sparing.blocks⟩
  | name | assign | openParen =>
      exact ⟨Nat.zero_le _, Sparing.nil, sparing.body, sparing.blocks⟩
  | operand found =>
      have underWay := sparing.underWay
      cases isOperand_of_operand? found with
      | number | string | name =>
          exact ⟨underWay, Sparing.nil, sparing.body, sparing.blocks⟩
  | paren role within =>
      exact ⟨sparing.underWay, Sparing.nil, sparing.body, sparing.blocks⟩
  | operator role joined within =>
      have underWay := sparing.underWay
      have kept := operators_settle joined
      simp only [Expecting.operators, Waiting.operators] at underWay
      refine ⟨?_, Sparing.nil, sparing.body, sparing.blocks⟩
      simp only [Expecting.operators]
      omega
  | closeParen role joined =>
      have underWay := sparing.underWay
      have kept := operators_settle joined
      simp only [Waiting.operators] at kept
      refine ⟨?_, Sparing.nil, sparing.body, sparing.blocks⟩
      simpa only [Expecting.operators, kept] using underWay
  | ends joined ended =>
      have kept := operators_settle joined
      simp only [Waiting.operators, Nat.zero_add] at kept
      obtain ⟨underWay, body, around⟩ := ended.sparing sparing
      refine ⟨?_, Sparing.nil, body, around⟩
      simpa only [Expecting.operators, kept] using underWay
  | endOfPrint role =>
      obtain ⟨-, -, body, around⟩ := sparing
      simp only [rootsAll, Statement.roots, Sparing.append_iff] at body
      exact ⟨Nat.zero_le _, body.1, body.2, around⟩
  | openBrace role within =>
      obtain ⟨-, -, -, around⟩ := sparing
      simp only [rootsAround, Sparing.append_iff] at around
      exact ⟨Nat.zero_le _, around.1, around.2.1, around.2.2⟩
  | parenTooDeep | braceTooDeep =>
      exact reachable.elim

/-- A run loses nothing that was read. -/
theorem State.sparing_of_steps
    {bounds : Bounds} {limit : Nat} {state place : State} {items : List Token}
    (run : state.steps bounds items = .ok place)
    (reachable : place.Reachable)
    (sparing : place.Sparing limit) :
    state.Sparing limit := by
  induction items generalizing state with
  | nil =>
      cases run
      exact sparing
  | cons token rest inductionHypothesis =>
      obtain ⟨next, moved, run⟩ := State.steps_cons_eq_ok_iff.mp run
      exact moved.sparing (State.reachable_of_steps run reachable) (inductionHypothesis run)

theorem sparing_of_finishBlocks
    {limit : Nat} {blocks : List OpenBlock} {body : List Statement} {last : Span}
    (sparing : Sparing limit (rootsAll (State.finishBlocks last blocks body))) :
    Sparing limit (rootsAll body) ∧ Sparing limit (rootsAround blocks) := by
  induction blocks generalizing body with
  | nil =>
      exact ⟨Sparing.rootsAll_reverse_iff.mp sparing, Sparing.nil⟩
  | cons block outer inductionHypothesis =>
      obtain ⟨completed, around⟩ := inductionHypothesis sparing
      simp only [rootsAll, Owner.roots_complete, Block.roots, Sparing.append_iff,
        Sparing.rootsAll_reverse_iff] at completed
      obtain ⟨⟨owner, inner⟩, before⟩ := completed
      exact ⟨inner, by simp [rootsAround, owner, before, around]⟩

/-- A program has all the expressions that were read where it ends. -/
theorem State.sparing_of_finish
    {limit : Nat} {place : State} {body : List Statement}
    (finished : place.finish = .ok body)
    (sparing : Bhasha.Sparing limit (rootsAll body)) :
    place.Sparing limit := by
  rcases place with ⟨blocks, statements, expecting, last⟩
  cases expecting with
  | statement =>
      cases finished
      obtain ⟨inner, around⟩ := sparing_of_finishBlocks sparing
      exact ⟨Nat.zero_le _, Sparing.nil, inner, around⟩
  | alternate start condition consequent =>
      cases finished
      obtain ⟨inner, around⟩ := sparing_of_finishBlocks sparing
      simp only [rootsAll, Statement.roots, Sparing.append_iff] at inner
      exact ⟨Nat.zero_le _, inner.1, inner.2, around⟩
  | name | assign | openParen | operand | operator | endOfPrint | openBrace | tooDeep =>
      cases finished

end Reader

end Bhasha
