import Bhasha.Proofs.Syntax.Nesting
import Bhasha.Proofs.Syntax.Parsing
import Bhasha.Proofs.Syntax.Run
import Bhasha.Run

namespace Bhasha

/-!
# The spans of a parsed tree

The parts of a place that no larger part encloses yet have spans that form a
trail, and all that is complete is faithful to the text.  Every move keeps this:
a token makes the trail longer, or the end of a part merges what belongs to it.
The tokens of a text are `Spaced`, so the tree of a source is faithful to it.
-/

namespace Token

theorem Written.covers
    {text : List Char} {token : Token}
    (written : token.Written text)
    (ordered : token.span.start ≤ token.span.stop)
    (noString : token.role ≠ .string) :
    token.span.Covers text token.lexeme := by
  rw [Ne, role_eq_string_iff] at noString
  refine ⟨ordered, written.trans ?_⟩
  rcases token with ⟨kind, lexeme, span⟩
  cases kind with
  | string =>
      exact absurd rfl noString
  | keyword | identifier | number | operator | punctuation | endOfInput =>
      rfl

/-- The operand that a token is on its own covers the text of the token. -/
theorem Written.operand
    {text : List Char} {token : Token} {value : Expression}
    (written : token.Written text)
    (ordered : token.span.start ≤ token.span.stop)
    (found : Reader.operand? token = some value) :
    value.Faithful text ∧ value.span = token.span := by
  cases Reader.isOperand_of_operand? found with
  | number role | name role =>
      exact ⟨written.covers ordered (by simp [role]), rfl⟩
  | string role =>
      have isString := token.role_eq_string_iff.mp role
      refine ⟨⟨ordered, written.trans ?_⟩, rfl⟩
      simp only [spelling, isString, String.toList_append, List.append_assoc]
      rfl

end Token

namespace Reader

namespace Heading

def spans : Heading → List Span
  | declare start _ name => [name.span, start]
  | assign start _ => [start]
  | print start | conditional start | loop start => [start]

/-- The name that is declared or assigned covers its text; an assignment starts with it. -/
def Faithful (text : List Char) : Heading → Prop
  | declare _ _ name => name.Faithful text
  | assign start name => start = name.span ∧ name.Faithful text
  | print _ | conditional _ | loop _ => True

end Heading

namespace Waiting

def span? : Waiting → Option Span
  | operand left _ _ => some left.span
  | paren _ => none

def Faithful (text : List Char) : Waiting → Prop
  | operand left _ _ => left.Faithful text
  | paren _ => True

end Waiting

namespace Owner

def spans : Owner → List Span
  | consequent start condition => [condition.span, start]
  | alternate start condition first => [first.span, condition.span, start]
  | loop start condition => [condition.span, start]

def Faithful (text : List Char) : Owner → Prop
  | consequent _ condition | loop _ condition => condition.Faithful text
  | alternate _ condition first => condition.Faithful text ∧ first.Faithful text

end Owner

namespace OpenBlock

def spans (block : OpenBlock) : List Span :=
  block.start :: (block.owner.spans ++ block.before.map Statement.span)

def Faithful (text : List Char) (block : OpenBlock) : Prop :=
  block.owner.Faithful text ∧ AllFaithful text block.before

end OpenBlock

namespace Expecting

/-- The spans of an unfinished statement, the latest first. -/
def spans : Expecting → List Span
  | statement | tooDeep => []
  | alternate start condition consequent => [consequent.span, condition.span, start]
  | name start _ => [start]
  | assign heading | openParen heading => heading.spans
  | operand heading waiting => waiting.filterMap Waiting.span? ++ heading.spans
  | operator heading waiting value _ =>
      value.span :: (waiting.filterMap Waiting.span? ++ heading.spans)
  | endOfPrint start value => [value.span, start]
  | openBrace owner => owner.spans

def Faithful (text : List Char) : Expecting → Prop
  | statement | tooDeep | name .. => True
  | alternate _ condition consequent => condition.Faithful text ∧ consequent.Faithful text
  | assign heading | openParen heading => heading.Faithful text
  | operand heading waiting =>
      heading.Faithful text ∧ ∀ entry ∈ waiting, entry.Faithful text
  | operator heading waiting value _ =>
      heading.Faithful text ∧ (∀ entry ∈ waiting, entry.Faithful text) ∧ value.Faithful text
  | endOfPrint _ value => value.Faithful text
  | openBrace owner => owner.Faithful text

end Expecting

/-- The spans of the statements that are read and of the blocks around them, the latest first. -/
def outerSpans (blocks : List OpenBlock) (body : List Statement) : List Span :=
  body.map Statement.span ++ blocks.flatMap OpenBlock.spans

/-- The parts of a place are faithful, and the spans that nothing encloses yet form a trail. -/
structure State.Placed
    (text : List Char)
    (low past : Position)
    (state : State) : Prop where
  expecting : state.expecting.Faithful text
  body : AllFaithful text state.body
  blocks : ∀ block ∈ state.blocks, block.Faithful text
  trail : Trail low past state.last
    (state.expecting.spans ++ outerSpans state.blocks state.body)

/-- A token that stands between two positions of a text. -/
structure Fits (text : List Char) (past next : Position) (token : Token) : Prop where
  between : token.span.Between past next
  written : token.Written text

variable {text : List Char} {low past next : Position} {last : Span}

/-- Joining what waits keeps the trail and the operands faithful. -/
theorem settle_placed
    {precedence opened before : Nat} {waiting settled : List Waiting} {value whole : Expression}
    {rest : List Span}
    (waitingFaithful : ∀ entry ∈ waiting, entry.Faithful text)
    (faithful : value.Faithful text)
    (trail : Trail low past last (value.span :: (waiting.filterMap Waiting.span? ++ rest)))
    (joined : settle precedence waiting value opened = (settled, whole, before)) :
    (∀ entry ∈ settled, entry.Faithful text) ∧ whole.Faithful text ∧
      Trail low past last (whole.span :: (settled.filterMap Waiting.span? ++ rest)) := by
  refine settle_keeps
    (motive := fun waiting value _ =>
      (∀ entry ∈ waiting, entry.Faithful text) ∧ value.Faithful text ∧
        Trail low past last (value.span :: (waiting.filterMap Waiting.span? ++ rest)))
    joined ?_ ⟨waitingFaithful, faithful, trail⟩
  rintro left operator count waiting value opened ⟨waitingFaithful, faithful, trail⟩
  obtain ⟨leftFaithful, restFaithful⟩ := List.forall_mem_cons.mp waitingFaithful
  obtain ⟨merged, encloses⟩ := Trail.join trail
  exact ⟨restFaithful, ⟨leftFaithful, faithful, encloses⟩, merged⟩

/-- The end of the last block of a statement makes the statement faithful. -/
theorem Owner.complete_placed
    (owner : Owner)
    {block : Block} {rest : List Span}
    (ownerFaithful : owner.Faithful text)
    (blockFaithful : block.Faithful text)
    (trail : Trail low past last (block.span :: (owner.spans ++ rest))) :
    (owner.complete block last).Faithful text ∧
      Trail low past last ((owner.complete block last).span :: rest) := by
  cases owner with
  | consequent start condition =>
      obtain ⟨merged, encloses⟩ := Trail.merge [block.span, condition.span] trail
      exact ⟨⟨ownerFaithful, blockFaithful, encloses.sublist (List.sublist_cons_self _ _)⟩, merged⟩
  | alternate start condition first =>
      obtain ⟨merged, encloses⟩ :=
        Trail.merge [block.span, first.span, condition.span] trail
      exact ⟨⟨ownerFaithful.1, ownerFaithful.2, blockFaithful,
        encloses.sublist (List.sublist_cons_self _ _)⟩, merged⟩
  | loop start condition =>
      obtain ⟨merged, encloses⟩ := Trail.merge [block.span, condition.span] trail
      exact ⟨⟨ownerFaithful, blockFaithful, encloses.sublist (List.sublist_cons_self _ _)⟩, merged⟩

/-- The end of a block makes it faithful. -/
theorem OpenBlock.close_placed
    (block : OpenBlock)
    {body : List Statement} {rest : List Span}
    (bodyFaithful : AllFaithful text body)
    (trail : Trail low past last (body.map Statement.span ++ (block.spans ++ rest))) :
    (Block.mk body.reverse (block.start.merge last)).Faithful text ∧
      Trail low past last
        (block.start.merge last :: (block.owner.spans ++ (block.before.map Statement.span ++ rest))) := by
  have opened : Trail low past last (body.map Statement.span ++
      block.start :: (block.owner.spans ++ (block.before.map Statement.span ++ rest))) := by
    simpa [OpenBlock.spans] using trail
  obtain ⟨merged, encloses⟩ := opened.merge (body.map Statement.span)
  refine ⟨⟨?_, ?_⟩, merged⟩
  · rw [allFaithful_iff] at bodyFaithful ⊢
    exact fun statement member => bodyFaithful statement (List.mem_reverse.mp member)
  · rw [List.map_reverse]
    exact encloses.sublist (List.sublist_cons_self _ _)

/-- The statement or the second block that comes after the last token of a block is placed. -/
theorem State.placed_afterBlock
    {blocks : List OpenBlock} {before : List Statement} {owner : Owner} {block : Block}
    (beforeFaithful : AllFaithful text before)
    (blocksFaithful : ∀ block ∈ blocks, block.Faithful text)
    (ownerFaithful : owner.Faithful text)
    (blockFaithful : block.Faithful text)
    (trail : Trail low past last (block.span :: (owner.spans ++ outerSpans blocks before))) :
    (State.afterBlock blocks before owner block last).Placed text low past := by
  cases owner with
  | consequent start condition =>
      exact ⟨⟨ownerFaithful, blockFaithful⟩, beforeFaithful, blocksFaithful, trail⟩
  | alternate | loop =>
      obtain ⟨faithful, merged⟩ := Owner.complete_placed _ ownerFaithful blockFaithful trail
      exact ⟨trivial, ⟨faithful, beforeFaithful⟩, blocksFaithful, merged⟩

theorem Starts.placed
    {blocks : List OpenBlock} {body : List Statement} {token : Token} {state : State}
    (starts : Starts blocks body token state)
    (fits : Fits text past next token)
    (bodyFaithful : AllFaithful text body)
    (blocksFaithful : ∀ block ∈ blocks, block.Faithful text)
    (descending : Descending low past (outerSpans blocks body)) :
    state.Placed text low next := by
  have pushed := descending.push fits.between
  cases starts with
  | print | declare | conditional | loop =>
      exact ⟨trivial, bodyFaithful, blocksFaithful, pushed⟩
  | assign role =>
      have covers := fits.written.covers fits.between.ordered (by simp [role])
      exact ⟨⟨rfl, covers⟩, bodyFaithful, blocksFaithful, pushed⟩
  | @close block outer role inside =>
      subst inside
      -- The brace is in no span of its own: the block is merged up to it.
      obtain ⟨blockFaithful, outerFaithful⟩ := List.forall_mem_cons.mp blocksFaithful
      have reached := descending.step fits.between
      obtain ⟨innerFaithful, merged⟩ := OpenBlock.close_placed block bodyFaithful reached
      exact State.placed_afterBlock blockFaithful.2 outerFaithful blockFaithful.1 innerFaithful
        merged

theorem Ends.placed
    {blocks : List OpenBlock} {body : List Statement} {token : Token} {value : Expression}
    {heading : Heading} {state : State}
    (ended : Ends blocks body value token heading state)
    (fits : Fits text past next token)
    (headingFaithful : heading.Faithful text)
    (valueFaithful : value.Faithful text)
    (bodyFaithful : AllFaithful text body)
    (blocksFaithful : ∀ block ∈ blocks, block.Faithful text)
    (descending :
      Descending low past (value.span :: (heading.spans ++ outerSpans blocks body))) :
    state.Placed text low next := by
  have reached := descending.step fits.between
  cases ended with
  | @declare start type name role =>
      obtain ⟨merged, encloses⟩ := Trail.merge [value.span, name.span] reached
      have faithful : (Statement.declare type name value (start.merge token.span)).Faithful text :=
        ⟨headingFaithful, valueFaithful, encloses.sublist (List.sublist_cons_self _ _)⟩
      exact ⟨trivial, ⟨faithful, bodyFaithful⟩, blocksFaithful, merged⟩
  | @assign start name role =>
      obtain ⟨rfl, nameFaithful⟩ := headingFaithful
      obtain ⟨merged, encloses⟩ := Trail.merge [value.span] reached
      have faithful : (Statement.assign name value (name.span.merge token.span)).Faithful text :=
        ⟨nameFaithful, valueFaithful, encloses⟩
      exact ⟨trivial, ⟨faithful, bodyFaithful⟩, blocksFaithful, merged⟩
  | print | conditional | loop =>
      exact ⟨valueFaithful, bodyFaithful, blocksFaithful, reached⟩

/-- A token that fits keeps the parts of a place faithful and their spans in a trail. -/
theorem Move.placed
    {bounds : Bounds} {state following : State} {token : Token}
    (moved : Move bounds state token following)
    (fits : Fits text past next token)
    (placed : state.Placed text low past) :
    following.Placed text low next := by
  obtain ⟨faithful, bodyFaithful, blocksFaithful, trail⟩ := placed
  have reached := trail.descending.step fits.between
  cases moved with
  | start starts =>
      exact starts.placed fits bodyFaithful blocksFaithful trail.descending
  | alternative role =>
      exact ⟨faithful, bodyFaithful, blocksFaithful, reached⟩
  | @noAlternative blocks body last _ start condition consequent _ starts =>
      -- The conditional ended with the token before, so it is merged before this one is taken.
      obtain ⟨ifFaithful, merged⟩ := Owner.complete_placed (.consequent start condition)
        faithful.1 faithful.2 trail
      exact starts.placed fits ⟨ifFaithful, bodyFaithful⟩ blocksFaithful merged.descending
  | name role =>
      have covers := fits.written.covers fits.between.ordered (by simp [role])
      exact ⟨covers, bodyFaithful, blocksFaithful, trail.descending.push fits.between⟩
  | assign role | openParen role =>
      exact ⟨⟨faithful, by simp⟩, bodyFaithful, blocksFaithful, reached⟩
  | operand found =>
      obtain ⟨valueFaithful, sameSpan⟩ := fits.written.operand fits.between.ordered found
      refine ⟨⟨faithful.1, faithful.2, valueFaithful⟩, bodyFaithful, blocksFaithful, ?_⟩
      rw [Expecting.spans, sameSpan]
      exact trail.descending.push fits.between
  | @paren _ _ _ _ heading waiting role within =>
      have parenFaithful : (Waiting.paren (Waiting.opened waiting)).Faithful text := trivial
      exact ⟨⟨faithful.1, List.forall_mem_cons.mpr ⟨parenFaithful, faithful.2⟩⟩, bodyFaithful,
        blocksFaithful, reached⟩
  | parenTooDeep role beyond | braceTooDeep role beyond =>
      -- Nothing is read from there, and the spans of the unfinished statement are dropped.
      exact ⟨trivial, bodyFaithful, blocksFaithful, reached.of_append⟩
  | operator role joined within =>
      obtain ⟨headingFaithful, waitingFaithful, valueFaithful⟩ := faithful
      obtain ⟨settledFaithful, leftFaithful, settledTrail⟩ :=
        settle_placed waitingFaithful valueFaithful (by simpa [Expecting.spans] using reached) joined
      refine ⟨⟨headingFaithful, List.forall_mem_cons.mpr ⟨leftFaithful, settledFaithful⟩⟩,
        bodyFaithful, blocksFaithful, ?_⟩
      simpa [Expecting.spans, Waiting.span?] using settledTrail
  | closeParen role joined =>
      obtain ⟨headingFaithful, waitingFaithful, valueFaithful⟩ := faithful
      obtain ⟨settledFaithful, innerFaithful, settledTrail⟩ :=
        settle_placed waitingFaithful valueFaithful (by simpa [Expecting.spans] using reached) joined
      refine ⟨⟨headingFaithful, (List.forall_mem_cons.mp settledFaithful).2, innerFaithful⟩,
        bodyFaithful, blocksFaithful, ?_⟩
      -- The parenthesis itself has left no span.
      rw [List.filterMap_cons_none rfl] at settledTrail
      simpa [Expecting.spans] using settledTrail
  | ends joined ended =>
      obtain ⟨headingFaithful, waitingFaithful, valueFaithful⟩ := faithful
      obtain ⟨-, wholeFaithful, settledTrail⟩ :=
        settle_placed waitingFaithful valueFaithful (by simpa [Expecting.spans] using trail) joined
      exact ended.placed fits headingFaithful wholeFaithful bodyFaithful blocksFaithful
        settledTrail.descending
  | @endOfPrint _ _ _ _ start value role =>
      obtain ⟨merged, encloses⟩ := Trail.merge [value.span] reached
      have printFaithful : (Statement.print value (start.merge token.span)).Faithful text :=
        ⟨faithful, encloses.sublist (List.sublist_cons_self _ _)⟩
      exact ⟨trivial, ⟨printFaithful, bodyFaithful⟩, blocksFaithful, merged⟩
  | openBrace role within =>
      refine ⟨trivial, trivial, List.forall_mem_cons.mpr ⟨⟨faithful, bodyFaithful⟩, blocksFaithful⟩,
        ?_⟩
      simpa [Expecting.spans, outerSpans, OpenBlock.spans] using
        trail.descending.push fits.between

/-- A run over spaced tokens leads from one faithful place to another. -/
theorem State.placed_steps
    {bounds : Bounds} {state place : State} {items : List Token}
    (spaced : Token.Spaced text past items)
    (run : state.steps bounds items = .ok place)
    (placed : state.Placed text low past) :
    ∃ next, place.Placed text low next := by
  induction spaced generalizing state with
  | nil =>
      cases run
      exact ⟨_, placed⟩
  | cons after ordered before written following inductionHypothesis =>
      obtain ⟨next, moved, run⟩ := State.steps_cons_eq_ok_iff.mp run
      exact inductionHypothesis run (moved.placed ⟨⟨after, ordered, before⟩, written⟩ placed)

/-- Blocks that end after the last token make the statements of the program faithful. -/
theorem State.placed_finishBlocks
    {blocks : List OpenBlock} {body : List Statement}
    (bodyFaithful : AllFaithful text body)
    (blocksFaithful : ∀ block ∈ blocks, block.Faithful text)
    (trail : Trail low past last (outerSpans blocks body)) :
    AllFaithful text (finishBlocks last blocks body).reverse ∧
      Trail low past last ((finishBlocks last blocks body).reverse.map Statement.span) := by
  induction blocks generalizing body with
  | nil =>
      rw [finishBlocks, List.reverse_reverse]
      exact ⟨bodyFaithful, by simpa [outerSpans] using trail⟩
  | cons block outer inductionHypothesis =>
      obtain ⟨blockFaithful, outerFaithful⟩ := List.forall_mem_cons.mp blocksFaithful
      obtain ⟨innerFaithful, merged⟩ := OpenBlock.close_placed block bodyFaithful trail
      obtain ⟨wholeFaithful, wholeTrail⟩ :=
        block.owner.complete_placed blockFaithful.1 innerFaithful merged
      exact inductionHypothesis ⟨wholeFaithful, blockFaithful.2⟩ outerFaithful wholeTrail

theorem State.placed_finish
    {state : State} {body : List Statement}
    (placed : state.Placed text low past)
    (finished : state.finish = .ok body) :
    AllFaithful text body.reverse ∧
      Trail low past state.last (body.reverse.map Statement.span) := by
  rcases state with ⟨blocks, statements, expecting, last⟩
  obtain ⟨faithful, bodyFaithful, blocksFaithful, trail⟩ := placed
  cases expecting with
  | statement =>
      cases finished
      exact State.placed_finishBlocks bodyFaithful blocksFaithful trail
  | alternate start condition consequent =>
      cases finished
      obtain ⟨ifFaithful, merged⟩ := Owner.complete_placed (.consequent start condition)
        faithful.1 faithful.2 trail
      exact State.placed_finishBlocks ⟨ifFaithful, bodyFaithful⟩ blocksFaithful merged
  | name | assign | openParen | operand | operator | endOfPrint | openBrace | tooDeep =>
      cases finished

/-- The last token of a run reaches what the last token before it reaches. -/
theorem State.reaches_steps
    {bounds : Bounds} {state place : State} {items : List Token} {first : Span}
    (spaced : Token.Spaced text past items)
    (run : state.steps bounds items = .ok place)
    (ordered : first.start ≤ first.stop)
    (reaches : state.last.Reaches first)
    (before : state.last.stop < past) :
    place.last.Reaches first := by
  induction spaced generalizing state with
  | nil =>
      cases run
      exact reaches
  | @cons low past token rest after tokenOrdered tokenBefore written following
      inductionHypothesis =>
      obtain ⟨next, moved, run⟩ := State.steps_cons_eq_ok_iff.mp run
      have stops : first.stop ≤ token.span.start :=
        le_trans reaches.2 (le_of_lt (lt_of_lt_of_le before after))
      have tokenReaches : token.span.Reaches first :=
        ⟨le_trans ordered stops, le_trans stops tokenOrdered⟩
      rw [← moved.last_eq] at tokenReaches tokenBefore
      exact inductionHypothesis run tokenReaches tokenBefore

/-- The statements that a place ends with are faithful, and a span encloses them in their order. -/
theorem State.encloses_finish
    {state : State} {body : List Statement} {first : Span}
    (placed : state.Placed text first.start past)
    (finished : state.finish = .ok body)
    (ordered : first.start ≤ first.stop)
    (reaches : state.last.Reaches first) :
    AllFaithful text body ∧
      (first.merge state.last).Encloses (body.map Statement.span) := by
  obtain ⟨faithful, trail⟩ := State.placed_finish placed finished
  rw [allFaithful_iff] at faithful ⊢
  refine ⟨fun statement member => faithful statement (List.mem_reverse.mpr member), ?_⟩
  rw [Span.merge_of_reaches reaches]
  refine ⟨le_trans ordered reaches.2, ?_, ?_⟩
  · intro part member
    have onTrail : part ∈ body.reverse.map Statement.span := by
      rw [List.map_reverse]
      exact List.mem_reverse.mpr member
    exact ⟨(trail.descending.between part onTrail).after, (trail.reached part onTrail).1.2⟩
  · have apart := trail.descending.pairwise_reverse
    rwa [← List.map_reverse, List.reverse_reverse] at apart

/-- The tree of spaced tokens is faithful to their text. -/
theorem faithful_of_parseTokens
    {source : Source} {items : List Token} {finish : Token} {program : Program}
    (spaced : Token.Spaced text past items)
    (inside : ∀ token ∈ items, token.role ≠ .endOfInput)
    (ends : finish.role = .endOfInput)
    (ordered : finish.span.start ≤ finish.span.stop)
    (parsed : parseTokens source (items ++ [finish]) = .ok program) :
    program.Faithful text := by
  obtain ⟨sameItems, sameFinish⟩ := itemsOf_of_ends inside ends
  unfold parseTokens at parsed
  split at parsed
  case h_2 =>
    cases parsed
  case h_1 body last accepted =>
    cases parsed
    obtain ⟨place, run, finished, rfl⟩ := exists_steps_of_read inside ends accepted
    rw [Program.Faithful, programSpan, sameItems, sameFinish]
    cases spaced with
    | nil =>
        cases run
        cases finished
        exact ⟨trivial, ordered, nofun, .nil⟩
    | @cons _ past token rest after tokenOrdered before written following =>
        -- The first token starts the trail, so nothing of the program starts before it.
        have initial : State.initial.Placed text token.span.start token.span.start :=
          ⟨trivial, trivial, by simp [State.initial], ⟨le_refl _, by simp [State.initial, Expecting.spans, outerSpans]⟩⟩
        obtain ⟨next, moved, restRun⟩ := State.steps_cons_eq_ok_iff.mp run
        have fits : Fits text token.span.start past token :=
          ⟨⟨le_refl _, tokenOrdered, before⟩, written⟩
        obtain ⟨ending, placed⟩ :=
          State.placed_steps following restRun (moved.placed fits initial)
        have reaches : place.last.Reaches token.span := by
          refine State.reaches_steps following restRun tokenOrdered ?_ ?_
          · rw [moved.last_eq]
            exact ⟨le_refl _, le_refl _⟩
          · rw [moved.last_eq]
            exact before
        exact State.encloses_finish placed finished tokenOrdered reaches

/-- After a string an expression is not at its end. -/
theorem Move.finish_of_string
    {bounds : Bounds} {state following : State} {token : Token}
    (moved : Move bounds state token following)
    (string : token.role = .string) :
    ∃ refusal, following.finish = .error refusal := by
  cases moved with
  | operand found =>
      exact ⟨_, rfl⟩
  | start starts | noAlternative starts =>
      cases starts with
      | print role | conditional role | loop role | assign role | close role inside
      | declare role declared =>
          rw [string] at role
          cases role
  | ends joined ended =>
      cases ended with
      | declare role | assign role | print role | conditional role | loop role =>
          rw [string] at role
          cases role
  | alternative role | name role | assign role | openParen role | paren role within
  | parenTooDeep role beyond | operator role joined within | closeParen role joined
  | endOfPrint role | openBrace role within | braceTooDeep role beyond =>
      rw [string] at role
      cases role

theorem State.finish_of_string
    {bounds : Bounds} {state place : State} {items : List Token} {token : Token}
    (run : state.steps bounds (items ++ [token]) = .ok place)
    (string : token.role = .string) :
    ∃ refusal, place.finish = .error refusal := by
  induction items generalizing state with
  | nil =>
      obtain ⟨next, moved, run⟩ := State.steps_cons_eq_ok_iff.mp run
      cases run
      exact moved.finish_of_string string
  | cons first items inductionHypothesis =>
      obtain ⟨next, moved, run⟩ := State.steps_cons_eq_ok_iff.mp run
      exact inductionHypothesis run

/-- The last token of a program is no string. -/
theorem role_ne_string_of_parseTokens
    {source : Source} {items : List Token} {last finish : Token} {program : Program}
    (inside : ∀ token ∈ items ++ [last], token.role ≠ .endOfInput)
    (ends : finish.role = .endOfInput)
    (parsed : parseTokens source (items ++ [last] ++ [finish]) = .ok program) :
    last.role ≠ .string := by
  intro string
  unfold parseTokens at parsed
  split at parsed
  case h_1 body lastSpan accepted =>
    obtain ⟨place, run, finished, -⟩ := exists_steps_of_read inside ends accepted
    obtain ⟨refusal, refused⟩ := State.finish_of_string run string
    rw [finished] at refused
    cases refused
  case h_2 =>
    cases parsed

end Reader

/--
The spans of a tree are faithful to its source.

In a source that is parsed every string is closed, as the text over its token has
both quotes.  The leaves and the names of the tree cover their own texts, every
span lies inside the span of the part around it, and the spans of the parts of
one part come one after the other.
-/
theorem Source.faithful_of_parse
    {source : Source} {program : Program}
    (parsed : source.parse = .ok program) :
    (∀ token ∈ Token.scan source.text, token.kind = .string →
        token.span.slice source.text.toList = '"' :: (token.lexeme.toList ++ ['"'])) ∧
      program.Faithful source.text.toList := by
  obtain ⟨placed, tokens, kinds, laid⟩ := Token.tokensFrom_laid source.text.toList 0 (Nat.zero_le _)
  change Token.scan source.text = _ at tokens
  unfold Source.parse at parsed
  rw [tokens] at parsed
  have inside : ∀ token ∈ placed.map Placed.token, token.role ≠ .endOfInput := by
    intro token member
    obtain ⟨entry, entryMember, rfl⟩ := List.mem_map.mp member
    rw [Ne, Token.role_eq_endOfInput_iff_kind]
    exact kinds entry entryMember
  rcases laid.spaced with spaced | ⟨before, last, rfl, isString⟩
  · refine ⟨?_, Reader.faithful_of_parseTokens spaced inside rfl (le_refl _) parsed⟩
    intro token member isString
    rw [tokens, List.mem_append, List.mem_singleton] at member
    rcases member with member | rfl
    · have written : token.Written source.text.toList := spaced.written token member
      simpa only [Token.Written, Token.spelling, isString] using written
    · cases isString
  · rw [List.map_append] at inside parsed
    exact absurd (last.token.role_eq_string_iff.mpr isString)
      (Reader.role_ne_string_of_parseTokens inside rfl parsed)

/-- A declaration of a text with a line feed, and blocks that end with the source. -/
def openBlocks : Source :=
  .ofText "string s = \"a\nb\";\nwhile ((s == s) == 1) \x7b print(s); if (s) \x7b s = (1 + 2);"

/-- The tree of `openBlocks` is faithful to it. -/
theorem faithful_openBlocks :
    ∃ program, openBlocks.parse = .ok program ∧ program.Faithful openBlocks.text.toList := by
  have accepted : openBlocks.parse.isOk = true := by
    decide +kernel
  cases parsed : openBlocks.parse with
  | ok program =>
      exact ⟨program, rfl, (Source.faithful_of_parse parsed).2⟩
  | error error =>
      rw [parsed] at accepted
      cases accepted

end Bhasha
