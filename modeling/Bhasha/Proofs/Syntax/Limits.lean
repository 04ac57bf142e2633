import Bhasha.Proofs.Evaluation.Calls
import Bhasha.Proofs.Syntax.Composition
import Bhasha.Proofs.Syntax.Openings
import Bhasha.Proofs.Syntax.Operators

namespace Bhasha

open Grammar

/-!
# What the limits of the parser promise

The limits bound how deep an accepted program goes: its blocks, and the right
operands of its expressions, into which the evaluator makes its calls.  And they
refuse no program of the grammar that keeps to them, statement by statement: what
an earlier statement had open is closed again, whatever it was.
-/

mutual

/-- How deep the blocks of a statement go. -/
def Statement.blockDepth : Statement → Nat
  | .declare .. | .assign .. | .print .. => 0
  | .ifThen _ consequent _ => consequent.blockDepth
  | .ifElse _ consequent alternate _ => max consequent.blockDepth alternate.blockDepth
  | .loop _ body _ => body.blockDepth

/-- How deep a block and those inside it go. -/
def Block.blockDepth : Block → Nat
  | .mk body _ => blockDepthAll body + 1

/-- How deep the blocks of some statements go. -/
def blockDepthAll : List Statement → Nat
  | [] => 0
  | statement :: rest => max statement.blockDepth (blockDepthAll rest)

end

section

variable {bounds : Reader.Bounds} {tokens : List Token}

mutual

theorem Statement.Admitted.blockDepth_le
    {level : Nat}
    (statement : Statement)
    (admitted : statement.Admitted bounds tokens level)
    (depth : level ≤ bounds.nesting) :
    level + statement.blockDepth ≤ bounds.nesting := by
  cases statement with
  | declare | assign | print =>
      exact depth
  | ifThen condition consequent span =>
      exact Block.Admitted.blockDepth_le consequent admitted.2
  | ifElse condition consequent alternate span =>
      have first := Block.Admitted.blockDepth_le consequent admitted.2.1
      have second := Block.Admitted.blockDepth_le alternate admitted.2.2
      rw [Statement.blockDepth]
      omega
  | loop condition body span =>
      exact Block.Admitted.blockDepth_le body admitted.2

theorem Block.Admitted.blockDepth_le
    {level : Nat}
    (block : Block)
    (admitted : block.Admitted bounds tokens level) :
    level + block.blockDepth ≤ bounds.nesting := by
  cases block with
  | mk body span =>
      have inner := AllAdmitted.blockDepth_le body admitted.2 admitted.1
      rw [Block.blockDepth]
      omega

theorem AllAdmitted.blockDepth_le
    {level : Nat}
    (body : List Statement)
    (admitted : AllAdmitted bounds tokens level body)
    (depth : level ≤ bounds.nesting) :
    level + blockDepthAll body ≤ bounds.nesting := by
  cases body with
  | nil =>
      exact depth
  | cons statement rest =>
      have first := Statement.Admitted.blockDepth_le statement admitted.1 depth
      have others := AllAdmitted.blockDepth_le rest admitted.2 depth
      rw [blockDepthAll]
      omega

end

end

namespace Reader

/-- The operators that are open where an expression starts leave room for its right operands. -/
theorem Admits.rightDepth_le
    {bounds : Bounds} {tokens : List Token}
    {level precedence before after : Nat} {value : Expression}
    (admits : Admits bounds tokens level precedence before after value)
    (count : before ≤ bounds.operators) :
    before ≤ after ∧ before + value.rightDepth ≤ bounds.operators := by
  induction admits with
  | operand member found =>
      cases isOperand_of_operand? found with
      | number | string | name =>
          exact ⟨Nat.le_refl _, count⟩
  | paren within inner inductionHypothesis =>
      exact ⟨Nat.le_refl _, (inductionHypothesis count).2⟩
  | chain loose leftAdmits within rightAdmits leftHypothesis rightHypothesis =>
      obtain ⟨more, leftDepth⟩ := leftHypothesis count
      obtain ⟨-, rightDepth⟩ := rightHypothesis within
      rw [Expression.rightDepth]
      omega

/-- An admitted expression has no more right operands on a path than operators may be open. -/
theorem Admitted.rightDepth_le
    {bounds : Bounds} {tokens : List Token} {value : Expression}
    (admitted : Admitted bounds tokens value) :
    value.rightDepth ≤ bounds.operators := by
  obtain ⟨level, before, after, -, count, admits⟩ := admitted
  exact Nat.le_trans (Nat.le_add_left _ _) (admits.rightDepth_le count).2

namespace State

/-- A token that is one operator too many is a move where more operators may be open. -/
theorem exists_move_of_limit
    {bounds : Bounds} {state : State} {token : Token} {refusal : Refusal}
    (refused : state.step bounds token = .error refusal)
    (isLimit : refusal.isLimit = true)
    (reachable : state.Reachable) :
    ∃ next heading waiting, next.expecting = .operand heading waiting ∧
      bounds.operators < Waiting.opened waiting ∧
        ∀ wide : Bounds, Waiting.opened waiting ≤ wide.operators → Move wide state token next := by
  rcases step_eq_limit refused isLimit with
    tooDeep | ⟨heading, waiting, value, opened, operator, settled, left, before, expecting, role,
      joined, beyond⟩
  · simp [Reachable, tooDeep] at reachable
  · rcases state with ⟨blocks, body, _, last⟩
    cases expecting
    exact ⟨_, heading, .operand left operator (before + 1) :: settled, rfl,
      Nat.lt_succ_of_le beyond, fun wide within => .operator role joined within⟩

/-- Reading that stops because too much is open does so at a place of a run. -/
theorem exists_steps_of_overBounds
    {bounds : Bounds} {ending : Token} {state : State} {tokens : List Token}
    (exceeded : OverBounds (state.readTo bounds ending tokens)) :
    ∃ part place, part <+: itemsOf tokens ∧ state.steps bounds part = .ok place ∧
      (place.Reachable → ∃ token after refusal, itemsOf tokens = part ++ token :: after ∧
        place.step bounds token = .error refusal ∧ refusal.isLimit = true) := by
  obtain ⟨token, refusal, stopped, isLimit⟩ := exceeded
  rw [← steps_bind_readEnd] at stopped
  cases run : state.steps bounds (itemsOf tokens) with
  | error refused =>
      rw [run] at stopped
      cases stopped
      obtain ⟨part, after, place, items, run, refused⟩ := exists_of_steps_error run
      exact ⟨part, place, items ▸ List.prefix_append _ _, run, fun _ =>
        ⟨token, after, refusal, items, refused, isLimit⟩⟩
  | ok place =>
      refine ⟨itemsOf tokens, place, List.prefix_rfl, run, fun reachable => ?_⟩
      rw [run] at stopped
      simp only [Except.bind, readEnd] at stopped
      cases finished : place.finish with
      | ok body =>
          rw [finished] at stopped
          cases stopped
      | error found =>
          rw [finished] at stopped
          cases stopped
          rw [← finish_eq_error finished] at isLimit
          rcases place with ⟨blocks, body, expecting, last⟩
          cases expecting with
          | tooDeep =>
              exact reachable.elim
          | _ =>
              cases isLimit

theorem rested_within (last : Span) : (rested last).Within 0 :=
  Nat.le_refl 0

theorem rested_admitted (bounds : Bounds) (tokens : List Token) (last : Span) :
    (rested last).Admitted bounds tokens :=
  ⟨trivial, trivial, trivial⟩

/-- Where the bounds are wide, a run over statements of the grammar ends with them. -/
theorem exists_steps_of_readsBody
    {bounds : Bounds} {finish : Token} {tokens : List Token} {body : List Statement}
    (ends : finish.role = .endOfInput)
    (bodyRead : ReadsBody tokens [finish] body)
    (nesting : tokens.length < bounds.nesting)
    (operators : tokens.length < bounds.operators)
    (last : Span) :
    ∃ final found, (rested last).steps bounds (itemsOf tokens) = .ok final ∧
      final.finish = .ok found ∧ relabelAll .spans found = relabelAll .spans body := by
  have free : ¬ OverBounds ((rested last).readTo bounds finish tokens) :=
    not_overBounds_readTo (rested_within last) (by omega) (by omega)
  obtain ⟨found, foundLast, accepted, like⟩ :=
    (readTo_of_readsBody ends bodyRead bounds finish last).resolve_left free
  obtain ⟨final, run, finished, -⟩ := exists_steps_of_readTo accepted
  exact ⟨final, found, run, finished, like⟩

/-- No more operators are open than the expressions have that are read in the end. -/
theorem opened_le_of_steps
    {bounds : Bounds} {limit : Nat} {next final : State} {tokens rest : List Token}
    {heading : Heading} {waiting : List Waiting} {found : List Statement}
    (expecting : next.expecting = .operand heading waiting)
    (admitted : next.Admitted bounds tokens)
    (run : next.steps bounds rest = .ok final)
    (finished : final.finish = .ok found)
    (sparing : Bhasha.Sparing limit (rootsAll found)) :
    Waiting.opened waiting ≤ limit := by
  have pending : Pending bounds tokens next.blocks.length waiting := by
    simpa only [expecting, Expecting.Admitted] using admitted.expecting
  have kept : next.Sparing limit :=
    sparing_of_steps run (reachable_of_finish finished) (sparing_of_finish finished sparing)
  have few := kept.underWay
  simp only [expecting, Expecting.operators] at few
  exact Nat.le_trans pending.opened_le few

/--
Statements of the grammar are read where nothing goes beyond the nesting bound and
no expression of theirs has more operators than may be open.

If an operator were too many, reading within wide bounds would go on with it; the
expression that it is part of would have more operators than the bound says, and
it would be one of the expressions that are read in the end.
-/
theorem exists_readTo_of_sparing
    {finish : Token} {tokens : List Token} {body : List Statement} {last : Span}
    (bounds : Bounds)
    (ending : Token)
    (ends : finish.role = .endOfInput)
    (bodyRead : ReadsBody tokens [finish] body)
    (shallow : ∀ part place, part <+: itemsOf tokens →
      (rested last).steps bounds part = .ok place → place.Reachable)
    (sparing : Bhasha.Sparing bounds.operators (rootsAll body)) :
    ∃ result, (rested last).readTo bounds ending tokens = .ok result := by
  rcases readTo_of_readsBody ends bodyRead bounds ending last with
    exceeded | ⟨found, foundLast, accepted, -⟩
  · exfalso
    obtain ⟨part, place, inside, run, refused⟩ := exists_steps_of_overBounds exceeded
    have reachable := shallow part place inside run
    obtain ⟨token, after, refusal, items, refused, isLimit⟩ := refused reachable
    obtain ⟨next, heading, waiting, expecting, beyond, moves⟩ :=
      exists_move_of_limit refused isLimit reachable
    obtain ⟨wide, narrower, nesting, operators, opened⟩ : ∃ wide : Bounds,
        bounds.Narrower wide ∧ tokens.length < wide.nesting ∧ tokens.length < wide.operators ∧
          Waiting.opened waiting ≤ wide.operators := by
      refine ⟨⟨bounds.nesting + tokens.length + 1, Waiting.opened waiting + tokens.length + 1⟩,
        ⟨?_, ?_⟩, ?_, ?_, ?_⟩ <;> dsimp only <;> omega
    have moved : Move wide place token next := moves wide opened
    have start := steps_widen narrower run reachable
    obtain ⟨final, found, whole, finished, like⟩ :=
      exists_steps_of_readsBody ends bodyRead nesting operators last
    rw [items, steps_append start, steps, step_eq_ok_iff.mpr moved] at whole
    have admitted : next.Admitted wide (part ++ [token]) :=
      moved.admitted (by simp) (admitted_steps start
        (fun _ member => List.mem_append_left _ member) (rested_admitted _ _ last))
    have few := opened_le_of_steps expecting admitted whole finished
      (Sparing.of_relabelAll like sparing)
    exact absurd few (Nat.not_le.mpr beyond)
  · exact ⟨_, accepted⟩

/-- Where a program may end, only blocks are open. -/
theorem openings_of_finish
    {place : State} {program : List Statement}
    (finished : place.finish = .ok program) :
    place.openings = ⟨place.blocks.length, 0, false⟩ := by
  rcases place with ⟨blocks, body, expecting, last⟩
  cases expecting with
  | statement | alternate =>
      rfl
  | name | assign | openParen | operand | operator | endOfPrint | openBrace | tooDeep =>
      cases finished

/--
Statements of the grammar are read after others that may end where they start.

The blocks that are open around them take their part of the nesting bound, and
nothing else that came before counts.
-/
theorem exists_readTo_of_finish
    {bounds : Bounds} {place : State} {program body : List Statement}
    {finish : Token} {before tokens : List Token}
    (ending : Token)
    (run : State.initial.steps bounds before = .ok place)
    (finished : place.finish = .ok program)
    (ends : finish.role = .endOfInput)
    (bodyRead : ReadsBody tokens [finish] body)
    (shallow : ∀ part, part <+: tokens →
      (Openings.after (before ++ part)).depth ≤ bounds.nesting)
    (sparing : Bhasha.Sparing bounds.operators (rootsAll body)) :
    ∃ result, place.readTo bounds ending tokens = .ok result := by
  have opened : Openings.after before = ⟨place.blocks.length, 0, false⟩ := by
    rw [← openings_of_finish finished]
    exact (openings_of_steps run (reachable_of_finish finished)).symm
  obtain ⟨nesting, room⟩ : ∃ nesting, nesting + place.blocks.length = bounds.nesting := by
    have around := shallow [] List.nil_prefix
    rw [List.append_nil, opened] at around
    exact ⟨_, Nat.sub_add_cancel around⟩
  obtain ⟨statements, -, rested⟩ := exists_statement_of_finish finished
  have noAlternative : NoAlternative tokens :=
    noAlternative_of_readsBody bodyRead (noAlternative_cons (by simp [ends]))
  -- On top of the blocks around, what is open is counted from the start of all tokens.
  have reachable : ∀ part inner, part <+: itemsOf tokens →
      (State.rested place.last).steps ⟨nesting, bounds.operators⟩ part = .ok inner →
        inner.Reachable := by
    intro part inner inside alone
    have onto := steps_onto place.blocks statements alone
    rw [room] at onto
    have start : ((State.rested place.last).onto place.blocks statements).Reachable := trivial
    change (inner.onto place.blocks statements).Reachable
    refine reachable_of_depth onto start fun front among => ?_
    have depth := shallow front (among.trans (inside.trans (List.takeWhile_prefix _)))
    rw [Openings.after_append, opened] at depth
    exact depth
  obtain ⟨result, alone⟩ := exists_readTo_of_sparing ⟨nesting, bounds.operators⟩ ending ends
    bodyRead reachable sparing
  have onto := readTo_onto place.blocks statements (.inr ⟨result, alone⟩)
  rw [room, alone] at onto
  exact ⟨_, (rested bounds ending tokens noAlternative).trans onto⟩

end State

end Reader

/--
The limits of the parser bound what it accepts, and refuse nothing within them.

In a program that is parsed blocks nest within the nesting limit, every path into
an expression goes into no more right operands than operators may be open, and the
evaluator needs one nested call more than that at most.  And tokens of the grammar
are accepted after any tokens that are accepted, when no more blocks and grouping
parentheses are open anywhere in them than the limit says and no statement of
theirs has an expression with more operators than may be open.
-/
theorem parseTokens_limits :
    (∀ source tokens program, Reader.parseTokens source tokens = .ok program →
      blockDepthAll program.body ≤ Reader.maxNesting ∧
        ∀ value ∈ program.expressions,
          (∀ path part, value.follow path = some part →
            path.count .right ≤ Reader.maxOperators) ∧
            ∀ limit environment steps,
              value.evaluateWithin limit environment (Reader.maxOperators + 1) steps =
                some (value.evaluate limit environment steps)) ∧
      ∀ source before finish first tokens program,
        (∀ token ∈ before, token.kind ≠ .endOfInput) → finish.kind = .endOfInput →
        Reader.parseTokens source (before ++ [finish]) = .ok first →
        Sentence tokens program →
        (∀ part, part <+: tokens →
          (Openings.after (before ++ part)).depth ≤ Reader.maxNesting) →
        (∀ value ∈ program.roots, value.operators ≤ Reader.maxOperators) →
        ∃ whole, Reader.parseTokens source (before ++ tokens) = .ok whole := by
  constructor
  · intro source tokens program parsed
    obtain ⟨last, accepted⟩ := Reader.exists_read_of_parseTokens parsed
    have blocks := AllAdmitted.blockDepth_le program.body (Reader.admitted_of_read accepted)
      (Nat.zero_le _)
    rw [Nat.zero_add] at blocks
    refine ⟨blocks, fun value member => ?_⟩
    have depth := (Reader.admitted_of_parseTokens parsed value member).rightDepth_le
    refine ⟨fun path part leads => ?_, fun limit environment steps => ?_⟩
    · exact Nat.le_trans (Expression.count_right_le_rightDepth leads) depth
    · exact Expression.evaluateWithin_eq_some (Nat.lt_succ_of_le depth) steps
  · intro source before finish first tokens program insideKind endsKind parsed sentence shallow
      sparing
    have ends : finish.role = .endOfInput := (finish.role_eq_endOfInput_iff_kind).mpr endsKind
    have inside : ∀ token ∈ before, token.role ≠ .endOfInput :=
      fun token member role => insideKind token member (token.role_eq_endOfInput_iff_kind.mp role)
    obtain ⟨last, accepted⟩ := Reader.exists_read_of_parseTokens parsed
    obtain ⟨place, run, finished, -⟩ := Reader.exists_steps_of_read inside ends accepted
    obtain ⟨otherFinish, otherEnds, bodyRead⟩ := sentence
    obtain ⟨⟨body, last⟩, read⟩ := Reader.State.exists_readTo_of_finish
      (Reader.finishAfter (before ++ tokens)) run finished otherEnds bodyRead shallow sparing
    rw [← Reader.State.readTo_of_steps run, ← Reader.read_eq_readTo] at read
    exact ⟨⟨body, Reader.programSpan (before ++ tokens) last⟩, by rw [Reader.parseTokens, read]⟩

/-- A loop after a closed conditional keeps to the limits, and so does what is accepted. -/
theorem parseTokens_limits_openLoop :
    blockDepthAll openLoopProgram.body ≤ Reader.maxNesting ∧
      ∃ whole, Reader.parseTokens (.ofText "") (closedConditional ++ openLoop) = .ok whole := by
  let name : Expression := .name "a" (Span.point .first)
  let program : Program :=
    ⟨[.ifThen name (.mk [] (Span.point .first)) (Span.point .first)], Span.point .first⟩
  have parsed :
      Reader.parseTokens (.ofText "") (closedConditional ++ [.finish .first]) = .ok program :=
    rfl
  have alone : Reader.parseTokens (.ofText "") openLoop = .ok openLoopProgram :=
    rfl
  have ended : EndsOnce openLoop :=
    ⟨openLoop.dropLast, .finish .first, rfl, by simp [openLoop], rfl⟩
  have shallow : ∀ count < 11,
      (Openings.after (closedConditional ++ openLoop.take count)).depth ≤ Reader.maxNesting := by
    decide +kernel
  have within : ∀ part, part <+: openLoop →
      (Openings.after (closedConditional ++ part)).depth ≤ Reader.maxNesting := by
    intro part inside
    rw [List.prefix_iff_eq_take.mp inside]
    exact shallow part.length (Nat.lt_succ_of_le inside.length_le)
  obtain ⟨bounded, accepted⟩ := parseTokens_limits
  refine ⟨(bounded (.ofText "") openLoop openLoopProgram alone).1,
    accepted (.ofText "") closedConditional (.finish .first) program openLoop openLoopProgram
      (by simp [closedConditional]) rfl parsed (Reader.sentence_of_parseTokens ended alone)
      within ?_⟩
  simp [Program.roots, rootsAll, openLoopProgram, Statement.roots, Block.roots,
    Expression.operators, Reader.maxOperators]

end Bhasha
