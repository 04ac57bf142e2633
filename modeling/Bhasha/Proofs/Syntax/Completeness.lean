import Bhasha.Proofs.Syntax.Move
import Bhasha.Proofs.Syntax.Relabel

namespace Bhasha.Reader

open Grammar

/-!
# Every program of the grammar is read

Reading follows a derivation: from a place where an expression, a block or a
statement may start, its tokens lead to the place after it, with the tree of the
derivation up to spans.  The only other outcome is that too much is open.

The operands of a chain are not joined before the token after them is seen.  So
the place after an expression is described by what joining does there:
`AfterExpression` says that joining at the precedence of the layer gives back the
operands that waited before, and the tree of the whole expression.
-/

namespace Refusal

/-- A token is refused because too much is open. -/
def isLimit : Refusal → Bool
  | wanted _ => false
  | nesting | operators => true

end Refusal

/-- Reading stops because too much is open. -/
def OverBounds (result : Except (Token × Refusal) (List Statement × Span)) : Prop :=
  ∃ token refusal, result = .error (token, refusal) ∧ refusal.isLimit = true

/-- Beyond the nesting bound nothing is read. -/
theorem overBounds_tooDeep
    {bounds : Bounds} {ending : Token} {tokens : List Token}
    {blocks : List OpenBlock} {body : List Statement} {last : Span} :
    OverBounds (State.readTo bounds ending ⟨blocks, body, .tooDeep, last⟩ tokens) := by
  cases tokens with
  | nil =>
      exact ⟨ending, .nesting, rfl, rfl⟩
  | cons token rest =>
      refine ⟨token, .nesting, ?_, rfl⟩
      unfold State.readTo
      split <;> rfl

/--
Reading some tokens from a place goes on with the remaining ones from a place of
a kind, unless too much is open.
-/
def Leads
    (bounds : Bounds)
    (ending : Token)
    (state : State)
    (tokens rest : List Token)
    (kind : State → Prop) : Prop :=
  OverBounds (state.readTo bounds ending tokens) ∨
    ∃ next, kind next ∧ state.readTo bounds ending tokens = next.readTo bounds ending rest

namespace Leads

variable
  {bounds : Bounds} {ending : Token} {state next : State} {token : Token}
  {tokens middle rest : List Token} {kind after : State → Prop}

theorem here
    (reached : kind state) :
    Leads bounds ending state tokens tokens kind :=
  .inr ⟨state, reached, rfl⟩

/-- What follows the first tokens follows all of them. -/
theorem trans
    (first : Leads bounds ending state tokens middle kind)
    (second : ∀ next, kind next → Leads bounds ending next middle rest after) :
    Leads bounds ending state tokens rest after := by
  rcases first with exceeded | ⟨next, reached, same⟩
  · exact .inl exceeded
  · unfold Leads
    rw [same]
    exact second next reached

/-- A move is the first step of reading. -/
theorem move
    (moved : Move bounds state token next)
    (following : Leads bounds ending next tokens rest kind) :
    Leads bounds ending state (token :: tokens) rest kind := by
  unfold Leads
  rw [moved.readTo ending tokens]
  exact following

/-- A place that reads on in the same way may take the place of another. -/
theorem congr
    (same : state.readTo bounds ending tokens = next.readTo bounds ending tokens)
    (following : Leads bounds ending next tokens rest kind) :
    Leads bounds ending state tokens rest kind := by
  unfold Leads
  rw [same]
  exact following

/-- A place of one kind may be seen as a place of another. -/
theorem imp
    (first : Leads bounds ending state tokens rest kind)
    (weaker : ∀ next, kind next → after next) :
    Leads bounds ending state tokens rest after :=
  first.trans fun next reached => .here (weaker next reached)

/-- Beyond the nesting bound every way of going on is too much. -/
theorem tooDeep
    {blocks : List OpenBlock} {body : List Statement} {last : Span}
    (expecting : state = ⟨blocks, body, .tooDeep, last⟩) :
    Leads bounds ending state tokens rest kind := by
  subst expecting
  exact .inl overBounds_tooDeep

end Leads

namespace Waiting

/-- The last operand that waits does so for an operator below a precedence. -/
def Below (precedence : Nat) : List Waiting → Prop
  | .operand _ operator _ :: _ => operator.precedence < precedence
  | _ => True

theorem Below.mono
    {lower higher : Nat} {waiting : List Waiting}
    (below : Below lower waiting)
    (order : lower ≤ higher) :
    Below higher waiting := by
  rcases waiting with _ | ⟨⟨left, operator, before⟩ | before, rest⟩
  · trivial
  · exact Nat.lt_of_lt_of_le below order
  · trivial

end Waiting

/-- Nothing is joined when the operands that wait are below the precedence. -/
theorem settle_of_below
    {precedence : Nat} {waiting : List Waiting}
    (below : Waiting.Below precedence waiting)
    (value : Expression)
    (opened : Nat) :
    settle precedence waiting value opened = (waiting, value, opened) := by
  rcases waiting with _ | ⟨⟨left, operator, before⟩ | before, rest⟩
  · rfl
  · simp only [settle, Nat.not_le.mpr below, ↓reduceIte]
  · rfl

/-- Joining at a precedence may begin by joining at a higher one. -/
theorem settle_of_settle
    {lower higher : Nat}
    (order : lower ≤ higher)
    {waiting settled : List Waiting} {value joined : Expression} {opened before : Nat}
    (first : settle higher waiting value opened = (settled, joined, before)) :
    settle lower waiting value opened = settle lower settled joined before := by
  induction waiting generalizing value opened with
  | nil =>
      cases first
      rfl
  | cons entry rest inductionHypothesis =>
      cases entry with
      | operand left operator count =>
          by_cases tight : higher ≤ operator.precedence
          · have looseTight : lower ≤ operator.precedence := Nat.le_trans order tight
            simp only [settle, tight, ↓reduceIte] at first
            simp only [settle, looseTight, ↓reduceIte]
            exact inductionHypothesis first
          · simp only [settle, tight, ↓reduceIte] at first
            cases first
            rfl
      | paren count =>
          cases first
          rfl

/-- The place after an expression of a layer, where its last operands may still be joined. -/
def AfterExpression
    (blocks : List OpenBlock)
    (body : List Statement)
    (heading : Heading)
    (waiting : List Waiting)
    (precedence : Nat)
    (value : Expression)
    (state : State) : Prop :=
  ∃ inner found opened last joined before,
    state = ⟨blocks, body, .operator heading inner found opened, last⟩ ∧
      settle precedence inner found opened = (waiting, joined, before) ∧
        joined.relabel .spans = value.relabel .spans

section

variable
  {bounds : Bounds} {ending : Token}
  {blocks : List OpenBlock} {body : List Statement} {last : Span}

/-- An operand of one token leads to the place after it. -/
theorem leads_of_operand
    {heading : Heading} {waiting : List Waiting} {precedence : Nat}
    (below : Waiting.Below precedence waiting)
    {token : Token} {rest : List Token} {found value : Expression}
    (single : operand? token = some found)
    (like : found.relabel .spans = value.relabel .spans) :
    Leads bounds ending ⟨blocks, body, .operand heading waiting, last⟩ (token :: rest) rest
      (AfterExpression blocks body heading waiting precedence value) :=
  .move (.operand single) <| .here
    ⟨waiting, found, Waiting.opened waiting, token.span, found, Waiting.opened waiting, rfl,
      settle_of_below below found _, like⟩

/-- The tokens of an expression lead to the place after it. -/
theorem leads_of_derives
    {layer : Layer} {tokens : List Token} {value : Expression}
    (derived : Derives layer tokens value)
    {heading : Heading} {waiting : List Waiting}
    (below : Waiting.Below layer.precedence waiting)
    (rest : List Token) :
    Leads bounds ending ⟨blocks, body, .operand heading waiting, last⟩ (tokens ++ rest) rest
      (AfterExpression blocks body heading waiting layer.precedence value) := by
  induction derived generalizing waiting last rest with
  | @number token value span role =>
      have single : operand? token =
          some (.literal (.number value) token.lexeme token.span) := by
        simp [operand?, role]
      exact leads_of_operand below single rfl
  | @string token span role =>
      have single : operand? token =
          some (.literal (.string token.lexeme) s!"\"{token.lexeme}\"" token.span) := by
        simp [operand?, role]
      exact leads_of_operand below single rfl
  | @name token span role =>
      have single : operand? token = some (.name token.lexeme token.span) := by
        simp [operand?, role]
      exact leads_of_operand below single rfl
  | @paren opening closing tokens value opens derived closes inductionHypothesis =>
      rw [List.cons_append, List.append_assoc]
      by_cases within : blocks.length + Waiting.parens waiting < bounds.nesting
      · refine .move (.paren opens within) ?_
        have stopped : Waiting.Below Layer.equality.precedence
            (.paren (Waiting.opened waiting) :: waiting) := trivial
        apply (inductionHypothesis stopped ([closing] ++ rest)).trans
        rintro next ⟨inner, found, opened, last, joined, before, rfl, settled, like⟩
        -- The parenthesis stops the joining, so nothing changes below the loosest layer.
        have closed : settle 0 inner found opened =
            (.paren (Waiting.opened waiting) :: waiting, joined, before) :=
          settle_of_settle (Nat.zero_le _) settled
        exact .move (.closeParen closes closed) <| .here
          ⟨waiting, joined, Waiting.opened waiting, closing.span, joined,
            Waiting.opened waiting, rfl, settle_of_below below joined _, like⟩
      · exact .move (.parenTooDeep opens (Nat.not_lt.mp within)) (.tooDeep rfl)
  | @single layer tighter tokens value next derived inductionHypothesis =>
      have order : layer.precedence ≤ tighter.precedence := by
        rw [Layer.precedence_tighter next]
        exact Nat.le_succ _
      apply (inductionHypothesis (below.mono order) rest).imp
      rintro next ⟨inner, found, opened, last, joined, before, rfl, settled, like⟩
      refine ⟨inner, found, opened, last, joined, before, rfl, ?_, like⟩
      rw [settle_of_settle order settled, settle_of_below below]
  | @chain layer tighter lefts rights token operator left right span next leftDerived role member
      rightDerived leftHypothesis rightHypothesis =>
      have exact : operator.precedence = layer.precedence :=
        (layer.mem_operators_iff operator).mp member
      have order : layer.precedence ≤ tighter.precedence := by
        rw [Layer.precedence_tighter next]
        exact Nat.le_succ _
      rw [List.append_assoc, List.cons_append]
      -- The left operands are joined only now that the operator after them is seen.
      apply (leftHypothesis below (token :: (rights ++ rest))).trans
      rintro next ⟨inner, found, opened, last, leftJoined, before, rfl, settled, leftLike⟩
      rw [← exact] at settled
      by_cases within : before < bounds.operators
      · refine .move (.operator role settled within) ?_
        -- The right operand is of the tighter layer, so it leaves its operator waiting.
        have tight : Waiting.Below tighter.precedence
            (.operand leftJoined operator (before + 1) :: waiting) := by
          simp only [Waiting.Below, Layer.precedence_tighter next]
          omega
        apply (rightHypothesis tight rest).imp
        rintro next ⟨inner, found, opened, last, rightJoined, count, rfl, settled, rightLike⟩
        refine ⟨inner, found, opened, last, .join operator leftJoined rightJoined, before + 1, rfl,
          ?_, ?_⟩
        · rw [settle_of_settle order settled]
          simp only [settle, exact, Nat.le_refl, ↓reduceIte]
          exact settle_of_below below _ _
        · simp only [Expression.join, Expression.relabel, leftLike, rightLike]
          rfl
      · refine .inl ⟨token, .operators, ?_, rfl⟩
        refine State.readTo_of_refused (by simp [role]) ?_ ending (rights ++ rest)
        simp only [State.step, State.readOperator, role, settled, within, ↓reduceIte]

/-- The tokens of an expression and the token that ends it lead to the place after both. -/
theorem leads_of_expression
    {tokens : List Token} {value : Expression}
    (derived : Derives .equality tokens value)
    {heading : Heading} {closing : Token} {rest after : List Token} {kind : State → Prop}
    (following : ∀ whole, whole.relabel .spans = value.relabel .spans →
      ∃ next, Ends blocks body whole closing heading next ∧
        Leads bounds ending next rest after kind) :
    Leads bounds ending ⟨blocks, body, .operand heading [], last⟩
      (tokens ++ closing :: rest) after kind := by
  have free : Waiting.Below Layer.equality.precedence [] := trivial
  apply (leads_of_derives derived free (closing :: rest)).trans
  rintro next ⟨inner, found, opened, last, joined, before, rfl, settled, like⟩
  have whole : settle 0 inner found opened = ([], joined, before) :=
    settle_of_settle (Nat.zero_le _) settled
  obtain ⟨next, ended, leads⟩ := following joined like
  exact .move (.ends whole ended) leads

/-- A list of tokens does not go on with a second block of a conditional. -/
def NoAlternative (tokens : List Token) : Prop :=
  ∀ token ∈ tokens.head?, token.role ≠ .keyword .alternative

theorem noAlternative_cons
    {token : Token} {rest : List Token}
    (other : token.role ≠ .keyword .alternative) :
    NoAlternative (token :: rest) := by
  rintro first ⟨⟩
  exact other

/-- A conditional without a second block is complete once the next token is seen. -/
theorem readTo_alternate
    {tokens : List Token}
    (noAlternative : NoAlternative tokens)
    (start : Span) (condition : Expression) (consequent : Block) :
    State.readTo bounds ending ⟨blocks, body, .alternate start condition consequent, last⟩ tokens =
      State.readTo bounds ending
        ⟨blocks, .ifThen condition consequent (start.merge last) :: body, .statement, last⟩
        tokens := by
  cases tokens with
  | nil =>
      rfl
  | cons token rest =>
      have other : token.role ≠ .keyword .alternative := noAlternative token (by simp)
      simp only [State.readTo, State.step_alternate other]
      rfl

end

/-- A statement does not start with the word between the blocks of a conditional. -/
theorem noAlternative_of_readsStatement
    {tokens rest : List Token} {statement : Statement}
    (read : ReadsStatement tokens rest statement) :
    NoAlternative tokens := by
  intro token first
  cases read with
  | @declare word name assign semicolon keyword type tokens rest value nameSpan span typed
      declared =>
      cases first
      intro alternative
      rw [typed] at alternative
      cases alternative
      cases declared
  | assign named =>
      cases first
      simp [named]
  | print printed =>
      cases first
      simp [printed]
  | ifThen conditional | ifElse conditional =>
      cases first
      simp [conditional]
  | loop looping =>
      cases first
      simp [looping]

/-- Statements that no second block follows do not start with one. -/
theorem noAlternative_of_readsBody
    {tokens rest : List Token} {statements : List Statement}
    (read : ReadsBody tokens rest statements)
    (noAlternative : NoAlternative rest) :
    NoAlternative tokens := by
  cases read with
  | nil =>
      exact noAlternative
  | cons statementRead bodyRead =>
      exact noAlternative_of_readsStatement statementRead

/-- A block that is open at the end of the input ends there. -/
theorem readTo_unclosed
    {bounds : Bounds} {ending finish : Token} {blocks : List OpenBlock}
    {before inner : List Statement} {owner : Owner} {start last : Span}
    (ends : finish.role = .endOfInput)
    (rest : List Token) :
    State.readTo bounds ending ⟨⟨owner, start, before⟩ :: blocks, inner, .statement, last⟩
        (finish :: rest) =
      (State.afterBlock blocks before owner (.mk inner.reverse (start.merge last)) last).readTo
        bounds ending (finish :: rest) := by
  rw [State.readTo_of_finish ends, State.readTo_of_finish ends]
  cases owner <;> rfl

mutual

/-- The tokens of a statement lead to the place after it. -/
theorem leads_of_readsStatement
    {bounds : Bounds} {ending : Token} {blocks : List OpenBlock} {body : List Statement}
    {last : Span} :
    ∀ {tokens rest : List Token} {statement : Statement},
      ReadsStatement tokens rest statement →
      NoAlternative rest →
      Leads bounds ending ⟨blocks, body, .statement, last⟩ tokens rest fun next =>
        ∃ found last, next = ⟨blocks, found :: body, .statement, last⟩ ∧
          found.relabel .spans = statement.relabel .spans
  | _, _, _, .declare typed declared named assigned derived ended, _ => by
      refine .move (.start (.declare typed declared)) <| .move (.name named) <|
        .move (.assign assigned) <| leads_of_expression derived fun whole like =>
          ⟨_, .declare ended, .here ⟨_, _, rfl, ?_⟩⟩
      simp only [Statement.relabel, like]
      rfl
  | _, _, _, .assign named assigned derived ended, _ => by
      refine .move (.start (.assign named)) <| .move (.assign assigned) <|
        leads_of_expression derived fun whole like =>
          ⟨_, .assign ended, .here ⟨_, _, rfl, ?_⟩⟩
      simp only [Statement.relabel, like]
      rfl
  | _, _, _, .print printed opens derived closes ended, _ => by
      refine .move (.start (.print printed)) <| .move (.openParen opens) <|
        leads_of_expression derived fun whole like =>
          ⟨_, .print closes, .move (.endOfPrint ended) <| .here ⟨_, _, rfl, ?_⟩⟩
      simp only [Statement.relabel, like]
      rfl
  | _, _, _, .ifThen conditional opens derived closes consequentRead, noAlternative => by
      refine .move (.start (.conditional conditional)) <| .move (.openParen opens) <|
        leads_of_expression derived fun whole like =>
          ⟨_, .conditional closes, (leads_of_readsBlock consequentRead).trans ?_⟩
      rintro next ⟨found, last, rfl, blockLike⟩
      refine .congr (readTo_alternate noAlternative _ _ _) <| .here ⟨_, _, rfl, ?_⟩
      simp only [Statement.relabel, like, blockLike]
      rfl
  | _, _, _, .ifElse conditional opens derived closes consequentRead alternative alternateRead,
      _ => by
      refine .move (.start (.conditional conditional)) <| .move (.openParen opens) <|
        leads_of_expression derived fun whole like =>
          ⟨_, .conditional closes, (leads_of_readsBlock consequentRead).trans ?_⟩
      rintro next ⟨found, last, rfl, blockLike⟩
      refine .move (.alternative alternative) <| (leads_of_readsBlock alternateRead).trans ?_
      rintro next ⟨other, last, rfl, otherLike⟩
      refine .here ⟨_, _, rfl, ?_⟩
      simp only [Owner.complete, Statement.relabel, like, blockLike, otherLike]
      rfl
  | _, _, _, .loop looping opens derived closes bodyRead, _ => by
      refine .move (.start (.loop looping)) <| .move (.openParen opens) <|
        leads_of_expression derived fun whole like =>
          ⟨_, .loop closes, (leads_of_readsBlock bodyRead).trans ?_⟩
      rintro next ⟨found, last, rfl, blockLike⟩
      refine .here ⟨_, _, rfl, ?_⟩
      simp only [Owner.complete, Statement.relabel, like, blockLike]
      rfl

theorem leads_of_readsBlock
    {bounds : Bounds} {ending : Token} {blocks : List OpenBlock} {body : List Statement}
    {owner : Owner} {last : Span} :
    ∀ {tokens rest : List Token} {block : Block},
      ReadsBlock tokens rest block →
      Leads bounds ending ⟨blocks, body, .openBrace owner, last⟩ tokens rest fun next =>
        ∃ found last, next = .afterBlock blocks body owner found last ∧
          found.relabel .spans = block.relabel .spans
  | _, _, _, .closed opens bodyRead closes => by
      by_cases within : blocks.length < bounds.nesting
      · refine .move (.openBrace opens within) <|
          (leads_of_readsBody bodyRead (noAlternative_cons (by simp [closes]))).trans ?_
        rintro next ⟨found, last, rfl, like⟩
        refine .move (.start (.close closes rfl)) <| .here ⟨_, _, rfl, ?_⟩
        simp only [Block.relabel, List.append_nil, List.reverse_reverse, like]
        rfl
      · exact .move (.braceTooDeep opens (Nat.not_lt.mp within)) (.tooDeep rfl)
  | _, _, _, .unclosed opens bodyRead ends => by
      by_cases within : blocks.length < bounds.nesting
      · refine .move (.openBrace opens within) <|
          (leads_of_readsBody bodyRead (noAlternative_cons (by simp [ends]))).trans ?_
        rintro next ⟨found, last, rfl, like⟩
        refine .congr (readTo_unclosed ends _) <| .here ⟨_, _, rfl, ?_⟩
        simp only [Block.relabel, List.append_nil, List.reverse_reverse, like]
        rfl
      · exact .move (.braceTooDeep opens (Nat.not_lt.mp within)) (.tooDeep rfl)

theorem leads_of_readsBody
    {bounds : Bounds} {ending : Token} {blocks : List OpenBlock} {body : List Statement}
    {last : Span} :
    ∀ {tokens rest : List Token} {statements : List Statement},
      ReadsBody tokens rest statements →
      NoAlternative rest →
      Leads bounds ending ⟨blocks, body, .statement, last⟩ tokens rest fun next =>
        ∃ found last, next = ⟨blocks, found.reverse ++ body, .statement, last⟩ ∧
          relabelAll .spans found = relabelAll .spans statements
  | _, _, _, .nil, _ =>
      .here ⟨[], last, rfl, rfl⟩
  | _, _, _, .cons statementRead bodyRead, noAlternative => by
      refine (leads_of_readsStatement statementRead
        (noAlternative_of_readsBody bodyRead noAlternative)).trans ?_
      rintro next ⟨statement, last, rfl, statementLike⟩
      apply (leads_of_readsBody bodyRead noAlternative).imp
      rintro next ⟨found, last, rfl, like⟩
      refine ⟨statement :: found, last, ?_, ?_⟩
      · simp only [List.reverse_cons, List.append_assoc, List.singleton_append]
      · simp only [relabelAll, statementLike, like]

end

namespace State

/-- A place where statements are read that nothing stands before or around. -/
def rested (last : Span) : State := ⟨[], [], .statement, last⟩

/-- Statements of the grammar are read to their end unless too much is open. -/
theorem readTo_of_readsBody
    {finish : Token} {tokens : List Token} {body : List Statement}
    (ends : finish.role = .endOfInput)
    (bodyRead : ReadsBody tokens [finish] body)
    (bounds : Bounds)
    (ending : Token)
    (last : Span) :
    OverBounds ((rested last).readTo bounds ending tokens) ∨
      ∃ found foundLast, (rested last).readTo bounds ending tokens = .ok (found, foundLast) ∧
        relabelAll .spans found = relabelAll .spans body := by
  have noAlternative : NoAlternative [finish] := noAlternative_cons (by simp [ends])
  rcases leads_of_readsBody bodyRead noAlternative with
    exceeded | ⟨next, ⟨found, foundLast, rfl, like⟩, same⟩
  · exact .inl exceeded
  · refine .inr ⟨found, foundLast, same.trans ?_, like⟩
    rw [readTo_of_finish ends]
    simp [readEnd, State.finish, finishBlocks]

end State

/-- A program of the grammar is read as a tree like its own, unless too much is open. -/
theorem read_of_readsBody
    (bounds : Bounds)
    {tokens : List Token} {finish : Token} {body : List Statement}
    (ends : finish.role = .endOfInput)
    (bodyRead : ReadsBody tokens [finish] body) :
    OverBounds (read bounds tokens) ∨
      ∃ found last, read bounds tokens = .ok (found, last) ∧
        relabelAll .spans found = relabelAll .spans body := by
  rw [read_eq_readTo]
  exact State.readTo_of_readsBody ends bodyRead bounds _ State.initial.last

end Bhasha.Reader
