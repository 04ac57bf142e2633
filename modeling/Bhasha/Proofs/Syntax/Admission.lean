import Bhasha.Proofs.Syntax.Parts
import Bhasha.Proofs.Syntax.Run

namespace Bhasha

/-!
# What a reader admits

`Admits` says which expressions can come out of a reader with some bounds: how
many parentheses and blocks stand around an expression, and how many operators
are open where it starts and where it ends.  A chain keeps its operators open to
its end; after a closing parenthesis none of those inside it are open.  So what
is admitted on the left of an operator may hold more operators than are counted.

Every move keeps this up for the operands that wait and for the statements that
are complete, and the expressions of a tree that is read are all admitted.
-/

open Grammar

namespace Reader

/--
An expression that a reader finds in some tokens.

It stands inside `level` parentheses and blocks, and it binds at least as tightly
as `precedence`; `before` operators are open where it starts, and `after` where
it ends.  Parentheses leave nothing behind in a tree but are a rule of their own.
-/
inductive Admits (bounds : Bounds) (tokens : List Token) :
    (level precedence before after : Nat) → Expression → Prop
  | operand
      {level precedence before : Nat} {token : Token} {value : Expression}
      (member : token ∈ tokens)
      (found : operand? token = some value) :
      Admits bounds tokens level precedence before before value
  | paren
      {level precedence before after : Nat} {value : Expression}
      (within : level < bounds.nesting)
      (inner : Admits bounds tokens (level + 1) Layer.equality.precedence before after value) :
      Admits bounds tokens level precedence before before value
  | chain
      {level precedence before middle after : Nat}
      {operator : BinaryOperator} {left right : Expression} {span : Span}
      (loose : precedence ≤ operator.precedence)
      (leftAdmits : Admits bounds tokens level operator.precedence before middle left)
      (within : middle < bounds.operators)
      (rightAdmits :
        Admits bounds tokens level (operator.precedence + 1) (middle + 1) after right) :
      Admits bounds tokens level precedence before (middle + 1) (.binary operator left right span)

variable {bounds : Bounds} {tokens : List Token}

/-- What binds tightly may stand where less is asked for. -/
theorem Admits.loosen
    {level precedence looser before after : Nat} {value : Expression}
    (admits : Admits bounds tokens level precedence before after value)
    (order : looser ≤ precedence) :
    Admits bounds tokens level looser before after value := by
  cases admits with
  | operand member found =>
      exact .operand member found
  | paren within inner =>
      exact .paren within inner
  | chain loose leftAdmits within rightAdmits =>
      exact .chain (Nat.le_trans order loose) leftAdmits within rightAdmits

/-- No more operators are open at the end of an expression than the bound allows. -/
theorem Admits.after_le
    {level precedence before after : Nat} {value : Expression}
    (admits : Admits bounds tokens level precedence before after value)
    (count : before ≤ bounds.operators) :
    after ≤ bounds.operators := by
  cases admits with
  | operand member found =>
      exact count
  | paren within inner =>
      exact count
  | chain loose leftAdmits within rightAdmits =>
      exact within

/-- An expression that a reader finds somewhere in some tokens. -/
def Admitted (bounds : Bounds) (tokens : List Token) (value : Expression) : Prop :=
  ∃ level before after,
    level ≤ bounds.nesting ∧ before ≤ bounds.operators ∧
      Admits bounds tokens level Layer.equality.precedence before after value

/-- What an admitted expression is made of is admitted. -/
theorem Admits.parts
    {level precedence before after : Nat} {value : Expression}
    (admits : Admits bounds tokens level precedence before after value)
    (positive : Layer.equality.precedence ≤ precedence)
    (depth : level ≤ bounds.nesting)
    (count : before ≤ bounds.operators) :
    ∀ part ∈ value.parts, Admitted bounds tokens part := by
  induction admits with
  | @operand level precedence before token value member found =>
      have whole : Admitted bounds tokens value :=
        ⟨level, before, before, depth, count, .operand member found⟩
      cases isOperand_of_operand? found with
      | number | string | name =>
          intro part inside
          rw [List.mem_singleton.mp inside]
          exact whole
  | paren within inner inductionHypothesis =>
      exact inductionHypothesis (Nat.le_refl _) within count
  | @chain level precedence before middle after operator left right span loose leftAdmits within
      rightAdmits leftHypothesis rightHypothesis =>
      have whole : Admitted bounds tokens (.binary operator left right span) :=
        ⟨level, before, middle + 1, depth, count,
          .chain (Nat.le_trans positive loose) leftAdmits within rightAdmits⟩
      have tight : Layer.equality.precedence ≤ operator.precedence :=
        Nat.le_trans positive loose
      intro part inside
      rcases List.mem_cons.mp inside with rfl | inside
      · exact whole
      rcases List.mem_append.mp inside with inLeft | inRight
      · exact leftHypothesis tight depth count part inLeft
      · exact rightHypothesis (Nat.le_succ_of_le tight) depth within part inRight

/-- A whole expression inside some blocks. -/
def AdmitsWhole
    (bounds : Bounds)
    (tokens : List Token)
    (level : Nat)
    (value : Expression) : Prop :=
  ∃ after, Admits bounds tokens level Layer.equality.precedence 0 after value

theorem AdmitsWhole.parts
    {level : Nat} {value : Expression}
    (admits : AdmitsWhole bounds tokens level value)
    (depth : level ≤ bounds.nesting) :
    ∀ part ∈ value.parts, Admitted bounds tokens part := by
  obtain ⟨after, admits⟩ := admits
  exact admits.parts (Nat.le_refl _) depth (Nat.zero_le _)

end Reader

mutual

/-- The expressions of a statement are admitted inside the blocks around them. -/
def Statement.Admitted
    (bounds : Reader.Bounds)
    (tokens : List Token)
    (level : Nat) : Statement → Prop
  | .declare _ _ value _ | .assign _ value _ | .print value _ =>
      Reader.AdmitsWhole bounds tokens level value
  | .ifThen condition consequent _ =>
      Reader.AdmitsWhole bounds tokens level condition ∧ consequent.Admitted bounds tokens level
  | .ifElse condition consequent alternate _ =>
      Reader.AdmitsWhole bounds tokens level condition ∧
        consequent.Admitted bounds tokens level ∧ alternate.Admitted bounds tokens level
  | .loop condition body _ =>
      Reader.AdmitsWhole bounds tokens level condition ∧ body.Admitted bounds tokens level

/-- A block may be opened at a level, and what it holds is admitted one level deeper. -/
def Block.Admitted
    (bounds : Reader.Bounds)
    (tokens : List Token)
    (level : Nat) : Block → Prop
  | .mk body _ => level < bounds.nesting ∧ AllAdmitted bounds tokens (level + 1) body

/-- The expressions of some statements are admitted inside the blocks around them. -/
def AllAdmitted
    (bounds : Reader.Bounds)
    (tokens : List Token)
    (level : Nat) : List Statement → Prop
  | [] => True
  | statement :: rest =>
      statement.Admitted bounds tokens level ∧ AllAdmitted bounds tokens level rest

end

section

variable {bounds : Reader.Bounds} {tokens : List Token} {level : Nat}

theorem allAdmitted_iff
    {body : List Statement} :
    AllAdmitted bounds tokens level body ↔
      ∀ statement ∈ body, statement.Admitted bounds tokens level := by
  induction body with
  | nil =>
      simp [AllAdmitted]
  | cons statement rest inductionHypothesis =>
      simp [AllAdmitted, inductionHypothesis]

theorem allAdmitted_reverse
    {body : List Statement}
    (admitted : AllAdmitted bounds tokens level body) :
    AllAdmitted bounds tokens level body.reverse := by
  rw [allAdmitted_iff] at admitted ⊢
  exact fun statement member => admitted statement (List.mem_reverse.mp member)

end

mutual

/-- Every expression of an admitted statement is admitted somewhere. -/
theorem Statement.Admitted.expressions
    {bounds : Reader.Bounds} {tokens : List Token} {level : Nat}
    (statement : Statement)
    (admitted : statement.Admitted bounds tokens level)
    (depth : level ≤ bounds.nesting) :
    ∀ value ∈ statement.expressions, Reader.Admitted bounds tokens value := by
  cases statement with
  | declare | assign | print =>
      exact Reader.AdmitsWhole.parts admitted depth
  | ifThen condition consequent span =>
      obtain ⟨conditionAdmits, consequentAdmitted⟩ := admitted
      exact List.forall_mem_append.mpr ⟨conditionAdmits.parts depth,
        Block.Admitted.expressions consequent consequentAdmitted⟩
  | ifElse condition consequent alternate span =>
      obtain ⟨conditionAdmits, consequentAdmitted, alternateAdmitted⟩ := admitted
      exact List.forall_mem_append.mpr ⟨conditionAdmits.parts depth,
        List.forall_mem_append.mpr
          ⟨Block.Admitted.expressions consequent consequentAdmitted,
            Block.Admitted.expressions alternate alternateAdmitted⟩⟩
  | loop condition body span =>
      obtain ⟨conditionAdmits, bodyAdmitted⟩ := admitted
      exact List.forall_mem_append.mpr ⟨conditionAdmits.parts depth,
        Block.Admitted.expressions body bodyAdmitted⟩

theorem Block.Admitted.expressions
    {bounds : Reader.Bounds} {tokens : List Token} {level : Nat}
    (block : Block)
    (admitted : block.Admitted bounds tokens level) :
    ∀ value ∈ block.expressions, Reader.Admitted bounds tokens value := by
  cases block with
  | mk body span =>
      exact AllAdmitted.expressions body admitted.2 admitted.1

theorem AllAdmitted.expressions
    {bounds : Reader.Bounds} {tokens : List Token} {level : Nat}
    (body : List Statement)
    (admitted : AllAdmitted bounds tokens level body)
    (depth : level ≤ bounds.nesting) :
    ∀ value ∈ expressionsAll body, Reader.Admitted bounds tokens value := by
  cases body with
  | nil =>
      simp [expressionsAll]
  | cons statement rest =>
      exact List.forall_mem_append.mpr
        ⟨Statement.Admitted.expressions statement admitted.1 depth,
          AllAdmitted.expressions rest admitted.2 depth⟩

end

namespace Reader

variable {bounds : Bounds} {tokens : List Token}

/--
The operands and parentheses that wait inside some blocks.

An operator that waits has its left operand and is one of those that are open;
the operators that wait bind ever tighter, up to the innermost parenthesis.
-/
inductive Pending (bounds : Bounds) (tokens : List Token) (level : Nat) : List Waiting → Prop
  | nil :
      Pending bounds tokens level []
  | operand
      {waiting : List Waiting} {left : Expression} {operator : BinaryOperator} {middle : Nat}
      (outer : Pending bounds tokens level waiting)
      (below : Waiting.Below operator.precedence waiting)
      (admits :
        Admits bounds tokens (level + Waiting.parens waiting) operator.precedence
          (Waiting.opened waiting) middle left)
      (within : middle < bounds.operators) :
      Pending bounds tokens level (.operand left operator (middle + 1) :: waiting)
  | paren
      {waiting : List Waiting}
      (outer : Pending bounds tokens level waiting)
      (within : level + Waiting.parens waiting < bounds.nesting) :
      Pending bounds tokens level (.paren (Waiting.opened waiting) :: waiting)

/-- Joining what waits gives an admitted expression, and what waits then is as before. -/
theorem Pending.settle
    {level precedence tight opened before : Nat} {waiting settled : List Waiting}
    {value joined : Expression}
    (pending : Pending bounds tokens level waiting)
    (below : Waiting.Below tight waiting)
    (order : precedence ≤ tight)
    (admits :
      Admits bounds tokens (level + Waiting.parens waiting) tight (Waiting.opened waiting) opened
        value)
    (settles : settle precedence waiting value opened = (settled, joined, before)) :
    Pending bounds tokens level settled ∧ Waiting.Below precedence settled ∧
      Admits bounds tokens (level + Waiting.parens settled) precedence (Waiting.opened settled)
        before joined := by
  induction pending generalizing tight value opened with
  | nil =>
      cases settles
      exact ⟨.nil, trivial, admits.loosen order⟩
  | paren outer within =>
      cases settles
      exact ⟨.paren outer within, trivial, admits.loosen order⟩
  | @operand waiting left operator middle outer leftBelow leftAdmits within inductionHypothesis =>
      by_cases joins : precedence ≤ operator.precedence
      · rw [Reader.settle, if_pos joins] at settles
        -- What binds more tightly than the operator that waits is its right operand.
        rw [Waiting.parens_operand] at admits
        have chained :
            Admits bounds tokens (level + Waiting.parens waiting) operator.precedence
              (Waiting.opened waiting) (middle + 1) (.join operator left value) :=
          .chain (Nat.le_refl _) leftAdmits within (admits.loosen below)
        exact inductionHypothesis leftBelow joins chained settles
      · rw [Reader.settle, if_neg joins] at settles
        cases settles
        exact ⟨.operand outer leftBelow leftAdmits within, Nat.not_le.mp joins,
          admits.loosen order⟩

/-- What a block belongs to is admitted. -/
def Owner.Admitted
    (bounds : Bounds)
    (tokens : List Token)
    (level : Nat) : Owner → Prop
  | consequent _ condition | loop _ condition => AdmitsWhole bounds tokens level condition
  | alternate _ condition first =>
      AdmitsWhole bounds tokens level condition ∧ first.Admitted bounds tokens level

/-- What is read of a statement is admitted. -/
def Expecting.Admitted
    (bounds : Bounds)
    (tokens : List Token)
    (level : Nat) : Expecting → Prop
  | statement | tooDeep | name .. | assign _ | openParen _ => True
  | alternate _ condition consequent =>
      AdmitsWhole bounds tokens level condition ∧ consequent.Admitted bounds tokens level
  | operand _ waiting => Pending bounds tokens level waiting
  | operator _ waiting value opened =>
      Pending bounds tokens level waiting ∧
        Admits bounds tokens (level + Waiting.parens waiting) Layer.primary.precedence
          (Waiting.opened waiting) opened value
  | endOfPrint _ value => AdmitsWhole bounds tokens level value
  | openBrace owner => owner.Admitted bounds tokens level

/-- The open blocks were opened within the bound, and what is read of them is admitted. -/
def AdmittedBlocks
    (bounds : Bounds)
    (tokens : List Token) : List OpenBlock → Prop
  | [] => True
  | block :: outer =>
      outer.length < bounds.nesting ∧ block.owner.Admitted bounds tokens outer.length ∧
        AllAdmitted bounds tokens outer.length block.before ∧
          AdmittedBlocks bounds tokens outer

/-- All that is read is admitted. -/
structure State.Admitted (bounds : Bounds) (tokens : List Token) (state : State) : Prop where
  expecting : state.expecting.Admitted bounds tokens state.blocks.length
  body : AllAdmitted bounds tokens state.blocks.length state.body
  blocks : AdmittedBlocks bounds tokens state.blocks

/-- The end of the last block of a statement makes the statement admitted. -/
theorem Owner.Admitted.complete
    {level : Nat} {owner : Owner} {block : Block}
    (admitted : owner.Admitted bounds tokens level)
    (blockAdmitted : block.Admitted bounds tokens level)
    (last : Span) :
    (owner.complete block last).Admitted bounds tokens level := by
  cases owner with
  | consequent | loop =>
      exact ⟨admitted, blockAdmitted⟩
  | alternate start condition first =>
      exact ⟨admitted.1, admitted.2, blockAdmitted⟩

theorem State.admitted_afterBlock
    {blocks : List OpenBlock} {before : List Statement} {owner : Owner} {block : Block}
    (ownerAdmitted : owner.Admitted bounds tokens blocks.length)
    (blockAdmitted : block.Admitted bounds tokens blocks.length)
    (beforeAdmitted : AllAdmitted bounds tokens blocks.length before)
    (blocksAdmitted : AdmittedBlocks bounds tokens blocks)
    (last : Span) :
    (State.afterBlock blocks before owner block last).Admitted bounds tokens := by
  cases owner with
  | consequent start condition =>
      exact ⟨⟨ownerAdmitted, blockAdmitted⟩, beforeAdmitted, blocksAdmitted⟩
  | alternate | loop =>
      exact ⟨trivial, ⟨ownerAdmitted.complete blockAdmitted last, beforeAdmitted⟩,
        blocksAdmitted⟩

theorem Starts.admitted
    {blocks : List OpenBlock} {body : List Statement} {token : Token} {state : State}
    (starts : Starts blocks body token state)
    (bodyAdmitted : AllAdmitted bounds tokens blocks.length body)
    (blocksAdmitted : AdmittedBlocks bounds tokens blocks) :
    state.Admitted bounds tokens := by
  cases starts with
  | print | declare | conditional | loop | assign =>
      exact ⟨trivial, bodyAdmitted, blocksAdmitted⟩
  | @close block outer role inside =>
      subst inside
      obtain ⟨within, ownerAdmitted, beforeAdmitted, outerAdmitted⟩ := blocksAdmitted
      have innerAdmitted :
          (Block.mk body.reverse (block.start.merge token.span)).Admitted bounds tokens
            outer.length :=
        ⟨within, allAdmitted_reverse bodyAdmitted⟩
      exact State.admitted_afterBlock ownerAdmitted innerAdmitted beforeAdmitted outerAdmitted
        token.span

theorem Ends.admitted
    {blocks : List OpenBlock} {body : List Statement} {token : Token} {value : Expression}
    {heading : Heading} {state : State}
    (ended : Ends blocks body value token heading state)
    (admits : AdmitsWhole bounds tokens blocks.length value)
    (bodyAdmitted : AllAdmitted bounds tokens blocks.length body)
    (blocksAdmitted : AdmittedBlocks bounds tokens blocks) :
    state.Admitted bounds tokens := by
  cases ended with
  | declare | assign =>
      exact ⟨trivial, ⟨admits, bodyAdmitted⟩, blocksAdmitted⟩
  | print | conditional | loop =>
      exact ⟨admits, bodyAdmitted, blocksAdmitted⟩

/-- A token of the list keeps all that is read admitted. -/
theorem Move.admitted
    {state following : State} {token : Token}
    (moved : Move bounds state token following)
    (member : token ∈ tokens)
    (admitted : state.Admitted bounds tokens) :
    following.Admitted bounds tokens := by
  obtain ⟨expecting, bodyAdmitted, blocksAdmitted⟩ := admitted
  cases moved with
  | start starts =>
      exact starts.admitted bodyAdmitted blocksAdmitted
  | alternative =>
      exact ⟨expecting, bodyAdmitted, blocksAdmitted⟩
  | noAlternative starts =>
      exact starts.admitted ⟨expecting, bodyAdmitted⟩ blocksAdmitted
  | name | parenTooDeep | braceTooDeep =>
      exact ⟨trivial, bodyAdmitted, blocksAdmitted⟩
  | assign | openParen =>
      exact ⟨.nil, bodyAdmitted, blocksAdmitted⟩
  | operand found =>
      exact ⟨⟨expecting, .operand member found⟩, bodyAdmitted, blocksAdmitted⟩
  | paren role within =>
      exact ⟨.paren expecting within, bodyAdmitted, blocksAdmitted⟩
  | operator role joined within =>
      obtain ⟨pending, admits⟩ := expecting
      rw [← Layer.precedence_of] at joined
      obtain ⟨settled, below, leftAdmits⟩ :=
        pending.settle (below_primary _) (Layer.le_primary _) admits joined
      rw [Layer.precedence_of] at below leftAdmits
      exact ⟨.operand settled below leftAdmits within, bodyAdmitted, blocksAdmitted⟩
  | closeParen role joined =>
      obtain ⟨pending, admits⟩ := expecting
      rw [settle_zero] at joined
      obtain ⟨settled, -, innerAdmits⟩ :=
        pending.settle (below_primary _) (Layer.le_primary _) admits joined
      cases settled with
      | paren outer within =>
          rw [Waiting.parens_paren] at innerAdmits
          exact ⟨⟨outer, .paren within innerAdmits⟩, bodyAdmitted, blocksAdmitted⟩
  | ends joined ended =>
      obtain ⟨pending, admits⟩ := expecting
      rw [settle_zero] at joined
      obtain ⟨-, -, wholeAdmits⟩ :=
        pending.settle (below_primary _) (Layer.le_primary _) admits joined
      exact ended.admitted ⟨_, wholeAdmits⟩ bodyAdmitted blocksAdmitted
  | @endOfPrint blocks body last token start value =>
      have printAdmitted :
          (Statement.print value (start.merge token.span)).Admitted bounds tokens blocks.length :=
        expecting
      exact ⟨trivial, ⟨printAdmitted, bodyAdmitted⟩, blocksAdmitted⟩
  | openBrace role within =>
      exact ⟨trivial, trivial, within, expecting, bodyAdmitted, blocksAdmitted⟩

/-- A run over tokens of the list keeps all that is read admitted. -/
theorem State.admitted_steps
    {state place : State} {items : List Token}
    (run : state.steps bounds items = .ok place)
    (members : ∀ token ∈ items, token ∈ tokens)
    (admitted : state.Admitted bounds tokens) :
    place.Admitted bounds tokens := by
  induction items generalizing state with
  | nil =>
      cases run
      exact admitted
  | cons token items inductionHypothesis =>
      obtain ⟨member, others⟩ := List.forall_mem_cons.mp members
      obtain ⟨next, moved, run⟩ := State.steps_cons_eq_ok_iff.mp run
      exact inductionHypothesis run others (moved.admitted member admitted)

theorem admitted_finishBlocks
    {blocks : List OpenBlock} {body : List Statement}
    (bodyAdmitted : AllAdmitted bounds tokens blocks.length body)
    (blocksAdmitted : AdmittedBlocks bounds tokens blocks)
    (last : Span) :
    AllAdmitted bounds tokens 0 (State.finishBlocks last blocks body) := by
  induction blocks generalizing body with
  | nil =>
      exact allAdmitted_reverse bodyAdmitted
  | cons block outer inductionHypothesis =>
      obtain ⟨within, ownerAdmitted, beforeAdmitted, outerAdmitted⟩ := blocksAdmitted
      have innerAdmitted :
          (Block.mk body.reverse (block.start.merge last)).Admitted bounds tokens outer.length :=
        ⟨within, allAdmitted_reverse bodyAdmitted⟩
      exact inductionHypothesis ⟨ownerAdmitted.complete innerAdmitted last, beforeAdmitted⟩
        outerAdmitted

theorem State.admitted_finish
    {state : State} {body : List Statement}
    (admitted : state.Admitted bounds tokens)
    (finished : state.finish = .ok body) :
    AllAdmitted bounds tokens 0 body := by
  rcases state with ⟨blocks, statements, expecting, last⟩
  obtain ⟨expectingAdmitted, bodyAdmitted, blocksAdmitted⟩ := admitted
  cases expecting with
  | statement =>
      cases finished
      exact admitted_finishBlocks bodyAdmitted blocksAdmitted last
  | alternate start condition consequent =>
      cases finished
      have withLast :
          AllAdmitted bounds tokens blocks.length
            (.ifThen condition consequent (start.merge last) :: statements) :=
        ⟨expectingAdmitted, bodyAdmitted⟩
      exact admitted_finishBlocks withLast blocksAdmitted last
  | name | assign | openParen | operand | operator | endOfPrint | openBrace | tooDeep =>
      cases finished

/-- The statements that are read off a list are admitted, with leaves from the list. -/
theorem admitted_of_read
    {body : List Statement} {last : Span}
    (accepted : read bounds tokens = .ok (body, last)) :
    AllAdmitted bounds tokens 0 body := by
  obtain ⟨place, run, finished, -⟩ := exists_steps_of_read_items accepted
  have members : ∀ token ∈ itemsOf tokens, token ∈ tokens :=
    fun token member => (List.takeWhile_prefix _).subset member
  have initial : State.initial.Admitted bounds tokens := ⟨trivial, trivial, trivial⟩
  exact State.admitted_finish (State.admitted_steps run members initial) finished

/-- Every expression of a program that is parsed is admitted within the bounds. -/
theorem admitted_of_parseTokens
    {source : Source} {program : Program}
    (parsed : parseTokens source tokens = .ok program) :
    ∀ value ∈ program.expressions, Admitted .standard tokens value := by
  obtain ⟨last, accepted⟩ := exists_read_of_parseTokens parsed
  exact AllAdmitted.expressions program.body (admitted_of_read accepted) (Nat.zero_le _)

end Reader

end Bhasha
