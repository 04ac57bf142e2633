import Bhasha.Proofs.Syntax.Completeness

namespace Bhasha.Reader

open Grammar

/-!
# Every program that is read is one of the grammar

`Reads` says what the tokens read so far are at a place: the open blocks with the
statements before them, the statements of the innermost block, and the part of a
statement that is under way, each derived by the grammar as far as it is
complete.  A move keeps this up, `Reads.move`, and at the end of the input it
gives a derivation of the whole program.

Operands that wait have operators that bind ever tighter.  This is what lets a
chain be joined from the inside: each operand that is joined belongs to the next
tighter layer of its operator, `derives_of_settle`.
-/

/-- The tokens of the operands and parentheses that wait, the innermost of them last. -/
inductive ReadsWaiting : List Token → List Waiting → Prop
  | nil :
      ReadsWaiting [] []
  | operand
      {before tokens : List Token} {token : Token} {layer : Layer} {left : Expression}
      {operator : BinaryOperator} {opened : Nat} {waiting : List Waiting}
      (outer : ReadsWaiting before waiting)
      (below : Waiting.Below layer.precedence waiting)
      (derived : Derives layer tokens left)
      (role : token.role = .binary operator)
      (member : operator ∈ layer.operators) :
      ReadsWaiting (before ++ tokens ++ [token]) (.operand left operator opened :: waiting)
  | paren
      {before : List Token} {token : Token} {opened : Nat} {waiting : List Waiting}
      (outer : ReadsWaiting before waiting)
      (role : token.role = .openParen) :
      ReadsWaiting (before ++ [token]) (.paren opened :: waiting)

/-- Joining gives an expression of the layer at which it stops. -/
theorem derives_of_settle
    {before tokens : List Token} {waiting settled : List Waiting}
    {layer target : Layer} {value joined : Expression} {opened count : Nat}
    (outer : ReadsWaiting before waiting)
    (below : Waiting.Below layer.precedence waiting)
    (derived : Derives layer tokens value)
    (order : target.precedence ≤ layer.precedence)
    (settles : settle target.precedence waiting value opened = (settled, joined, count)) :
    ∃ outerTokens innerTokens,
      before ++ tokens = outerTokens ++ innerTokens ∧
        ReadsWaiting outerTokens settled ∧
          Waiting.Below target.precedence settled ∧
            Derives target innerTokens joined := by
  induction outer generalizing layer tokens value opened with
  | nil =>
      cases settles
      exact ⟨[], tokens, rfl, .nil, trivial, derived.loosen order⟩
  | @operand front lefts token leftLayer left operator leftOpened waiting outer leftBelow
      leftDerived role member inductionHypothesis =>
      have exact := (leftLayer.mem_operators_iff operator).mp member
      by_cases tight : target.precedence ≤ operator.precedence
      · -- The operator is joined: what was joined so far is its right operand.
        simp only [settle, tight, ↓reduceIte] at settles
        obtain ⟨tighter, next⟩ := Layer.tighter_of_mem member
        have rightDerived : Derives tighter tokens value := by
          apply derived.loosen
          have step := Layer.precedence_tighter next
          simp only [Waiting.Below] at below
          omega
        obtain ⟨outerTokens, innerTokens, same, rest⟩ :=
          inductionHypothesis leftBelow
            (.chain next leftDerived role member rightDerived) (exact ▸ tight) settles
        refine ⟨outerTokens, innerTokens, ?_, rest⟩
        rw [← same]
        simp only [List.append_assoc, List.singleton_append]
      · simp only [settle, tight, ↓reduceIte] at settles
        cases settles
        exact ⟨_, tokens, rfl, .operand outer leftBelow leftDerived role member,
          Nat.not_le.mp tight, derived.loosen order⟩
  | paren outer role =>
      cases settles
      exact ⟨_, tokens, rfl, .paren outer role, trivial, derived.loosen order⟩

/-- Joining at no precedence is joining at that of the loosest layer. -/
theorem settle_zero
    (waiting : List Waiting)
    (value : Expression)
    (opened : Nat) :
    settle 0 waiting value opened =
      settle Layer.equality.precedence waiting value opened := by
  induction waiting generalizing value opened with
  | nil =>
      rfl
  | cons entry rest inductionHypothesis =>
      cases entry with
      | operand left operator before =>
          have positive : Layer.equality.precedence ≤ operator.precedence := by
            cases operator <;> decide
          simp only [settle, Nat.zero_le, positive, ↓reduceIte, inductionHypothesis]
      | paren before =>
          rfl

/-- The tokens of a statement up to the start of its expression. -/
inductive ReadsHeading : List Token → Heading → Prop
  | declare
      {word name assign : Token} {keyword : Keyword} {type : DeclaredType} {start nameSpan : Span}
      (typed : word.role = .keyword keyword)
      (declared : declaredType? keyword = some type)
      (named : name.role = .identifier)
      (assigned : assign.role = .assign) :
      ReadsHeading [word, name, assign] (.declare start type ⟨name.lexeme, nameSpan⟩)
  | assign
      {name assign : Token} {start nameSpan : Span}
      (named : name.role = .identifier)
      (assigned : assign.role = .assign) :
      ReadsHeading [name, assign] (.assign start ⟨name.lexeme, nameSpan⟩)
  | print
      {word opening : Token} {start : Span}
      (printed : word.role = .keyword .print)
      (opens : opening.role = .openParen) :
      ReadsHeading [word, opening] (.print start)
  | conditional
      {word opening : Token} {start : Span}
      (conditional : word.role = .keyword .conditional)
      (opens : opening.role = .openParen) :
      ReadsHeading [word, opening] (.conditional start)
  | loop
      {word opening : Token} {start : Span}
      (looping : word.role = .keyword .loop)
      (opens : opening.role = .openParen) :
      ReadsHeading [word, opening] (.loop start)

/-- The tokens are a block, whatever follows them. -/
def BlockTokens (tokens : List Token) (block : Block) : Prop :=
  ∀ rest, ReadsBlock (tokens ++ rest) rest block

/-- The tokens are a statement, whatever follows them. -/
def StatementTokens (tokens : List Token) (statement : Statement) : Prop :=
  ∀ rest, ReadsStatement (tokens ++ rest) rest statement

/-- The tokens of a statement up to the brace that opens its last block. -/
inductive ReadsOwner : List Token → Owner → Prop
  | consequent
      {front tokens : List Token} {closing : Token} {start : Span} {condition : Expression}
      (heading : ReadsHeading front (.conditional start))
      (derived : Derives .equality tokens condition)
      (closes : closing.role = .closeParen) :
      ReadsOwner (front ++ tokens ++ [closing]) (.consequent start condition)
  | alternate
      {front tokens : List Token} {otherwise : Token} {start : Span}
      {condition : Expression} {consequent : Block}
      (owner : ReadsOwner front (.consequent start condition))
      (block : BlockTokens tokens consequent)
      (alternative : otherwise.role = .keyword .alternative) :
      ReadsOwner (front ++ tokens ++ [otherwise]) (.alternate start condition consequent)
  | loop
      {front tokens : List Token} {closing : Token} {start : Span} {condition : Expression}
      (heading : ReadsHeading front (.loop start))
      (derived : Derives .equality tokens condition)
      (closes : closing.role = .closeParen) :
      ReadsOwner (front ++ tokens ++ [closing]) (.loop start condition)

/-- The last block of a statement completes it. -/
theorem ReadsOwner.complete
    {front tokens rest : List Token} {owner : Owner} {block : Block}
    (owned : ReadsOwner front owner)
    (blockRead : ReadsBlock tokens rest block)
    (last : Span) :
    ReadsStatement (front ++ tokens) rest (owner.complete block last) := by
  cases owned with
  | consequent heading derived closes =>
      cases heading with
      | conditional conditional opens =>
          simpa [Owner.complete] using
            ReadsStatement.ifThen conditional opens derived closes blockRead
  | alternate owner first alternative =>
      cases owner with
      | consequent heading derived closes =>
          cases heading with
          | conditional conditional opens =>
              simpa [Owner.complete] using
                ReadsStatement.ifElse conditional opens derived closes (first _) alternative
                  blockRead
  | loop heading derived closes =>
      cases heading with
      | loop looping opens =>
          simpa [Owner.complete] using
            ReadsStatement.loop looping opens derived closes blockRead

/-- The tokens of a last block complete its statement. -/
theorem ReadsOwner.statementTokens
    {front tokens : List Token} {owner : Owner} {block : Block}
    (owned : ReadsOwner front owner)
    (blockRead : BlockTokens tokens block)
    (last : Span) :
    StatementTokens (front ++ tokens) (owner.complete block last) := by
  intro rest
  rw [List.append_assoc]
  exact owned.complete (blockRead rest) last

/-- The tokens of the part of a statement that is under way. -/
inductive ReadsExpecting : List Token → Expecting → Prop
  | statement :
      ReadsExpecting [] .statement
  | alternate
      {front tokens : List Token} {start : Span} {condition : Expression} {consequent : Block}
      (owner : ReadsOwner front (.consequent start condition))
      (block : BlockTokens tokens consequent) :
      ReadsExpecting (front ++ tokens) (.alternate start condition consequent)
  | name
      {word : Token} {keyword : Keyword} {type : DeclaredType} {start : Span}
      (typed : word.role = .keyword keyword)
      (declared : declaredType? keyword = some type) :
      ReadsExpecting [word] (.name start type)
  | assign
      {tokens : List Token} {heading : Heading}
      (headed : ∀ token : Token, token.role = .assign → ReadsHeading (tokens ++ [token]) heading) :
      ReadsExpecting tokens (.assign heading)
  | openParen
      {tokens : List Token} {heading : Heading}
      (headed :
        ∀ token : Token, token.role = .openParen → ReadsHeading (tokens ++ [token]) heading) :
      ReadsExpecting tokens (.openParen heading)
  | operand
      {front before : List Token} {heading : Heading} {waiting : List Waiting}
      (headed : ReadsHeading front heading)
      (outer : ReadsWaiting before waiting) :
      ReadsExpecting (front ++ before) (.operand heading waiting)
  | operator
      {front before tokens : List Token} {heading : Heading} {waiting : List Waiting}
      {value : Expression} {opened : Nat}
      (headed : ReadsHeading front heading)
      (outer : ReadsWaiting before waiting)
      (derived : Derives .primary tokens value) :
      ReadsExpecting (front ++ (before ++ tokens)) (.operator heading waiting value opened)
  | endOfPrint
      {front tokens : List Token} {closing : Token} {start : Span} {value : Expression}
      (headed : ReadsHeading front (.print start))
      (derived : Derives .equality tokens value)
      (closes : closing.role = .closeParen) :
      ReadsExpecting (front ++ tokens ++ [closing]) (.endOfPrint start value)
  | openBrace
      {tokens : List Token} {owner : Owner}
      (owned : ReadsOwner tokens owner) :
      ReadsExpecting tokens (.openBrace owner)
  | tooDeep
      {tokens : List Token} :
      ReadsExpecting tokens .tooDeep

/-- The tokens of complete statements, the last of them first in the list of statements. -/
def ReadsBefore (tokens : List Token) (body : List Statement) : Prop :=
  ∀ following rest tail, ReadsBody following rest tail →
    ReadsBody (tokens ++ following) rest (body.reverse ++ tail)

/-- One more statement is complete. -/
theorem ReadsBefore.push
    {before tokens : List Token} {body : List Statement} {statement : Statement}
    (read : ReadsBefore before body)
    (statementRead : StatementTokens tokens statement) :
    ReadsBefore (before ++ tokens) (statement :: body) := by
  intro following rest tail tailRead
  have extended := read _ _ _ (.cons (statementRead following) tailRead)
  simpa only [List.append_assoc, List.reverse_cons, List.singleton_append] using extended

/-- The tokens of the open blocks and of all that stands before the innermost of them. -/
inductive ReadsBlocks : List Token → List OpenBlock → Prop
  | nil :
      ReadsBlocks [] []
  | cons
      {outer before front : List Token} {brace : Token} {block : OpenBlock}
      {blocks : List OpenBlock}
      (outerRead : ReadsBlocks outer blocks)
      (beforeRead : ReadsBefore before block.before)
      (owned : ReadsOwner front block.owner)
      (opens : brace.role = .openBrace) :
      ReadsBlocks (outer ++ (before ++ (front ++ [brace]))) (block :: blocks)

/-- The tokens read so far are what a place says they are. -/
inductive Reads : List Token → State → Prop
  | intro
      {outer before current : List Token} {blocks : List OpenBlock} {body : List Statement}
      {expecting : Expecting} {last : Span}
      (outerRead : ReadsBlocks outer blocks)
      (beforeRead : ReadsBefore before body)
      (currentRead : ReadsExpecting current expecting) :
      Reads (outer ++ (before ++ current)) ⟨blocks, body, expecting, last⟩

theorem ReadsBefore.nil : ReadsBefore [] [] :=
  fun _ _ _ read => read

theorem Reads.initial : Reads [] State.initial :=
  .intro .nil .nil .statement

/-- A block that is complete is part of a statement that is complete or goes on. -/
theorem Reads.afterBlock
    {outer before front tokens : List Token} {blocks : List OpenBlock}
    {body : List Statement} {owner : Owner} {block : Block} {last : Span}
    (outerRead : ReadsBlocks outer blocks)
    (beforeRead : ReadsBefore before body)
    (owned : ReadsOwner front owner)
    (blockRead : BlockTokens tokens block) :
    Reads (outer ++ (before ++ (front ++ tokens)))
      (.afterBlock blocks body owner block last) := by
  have completed (statement : Statement)
      (whole : StatementTokens (front ++ tokens) statement) :
      Reads (outer ++ (before ++ (front ++ tokens)))
        ⟨blocks, statement :: body, .statement, last⟩ := by
    simpa using Reads.intro outerRead (beforeRead.push whole) .statement
  cases owner with
  | consequent start condition =>
      exact .intro outerRead beforeRead (.alternate owned blockRead)
  | alternate start condition consequent =>
      exact completed _ (owned.statementTokens blockRead last)
  | loop start condition =>
      exact completed _ (owned.statementTokens blockRead last)

/-- A token that starts a statement, or ends a block, is read as such. -/
theorem Reads.starts
    {outer before : List Token} {blocks : List OpenBlock} {body : List Statement}
    {token : Token} {next : State}
    (outerRead : ReadsBlocks outer blocks)
    (beforeRead : ReadsBefore before body)
    (starts : Starts blocks body token next) :
    Reads (outer ++ (before ++ [token])) next := by
  cases starts with
  | print role =>
      exact .intro outerRead beforeRead (.openParen fun opening opens => .print role opens)
  | declare role declared =>
      exact .intro outerRead beforeRead (.name role declared)
  | conditional role =>
      exact .intro outerRead beforeRead (.openParen fun opening opens => .conditional role opens)
  | loop role =>
      exact .intro outerRead beforeRead (.openParen fun opening opens => .loop role opens)
  | assign role =>
      exact .intro outerRead beforeRead (.assign fun equals assigned => .assign role assigned)
  | close role inside =>
      subst inside
      cases outerRead with
      | @cons outer middle front brace _ _ outerRead middleRead owned opens =>
          have blockRead (span : Span) :
              BlockTokens (brace :: (before ++ [token])) (.mk body.reverse span) := by
            intro rest
            refine .closed opens ?_ role
            simpa using beforeRead (token :: rest) _ _ .nil
          simpa using Reads.afterBlock outerRead middleRead owned (blockRead _)

/-- A token that ends an expression is read as such. -/
theorem Reads.ends
    {outer before front tokens : List Token} {blocks : List OpenBlock}
    {body : List Statement} {heading : Heading} {value : Expression}
    {token : Token} {next : State}
    (outerRead : ReadsBlocks outer blocks)
    (beforeRead : ReadsBefore before body)
    (headed : ReadsHeading front heading)
    (derived : Derives .equality tokens value)
    (ended : Ends blocks body value token heading next) :
    Reads (outer ++ (before ++ (front ++ tokens ++ [token]))) next := by
  have completed {statement : Statement}
      (whole : StatementTokens (front ++ tokens ++ [token]) statement) :
      Reads (outer ++ (before ++ (front ++ tokens ++ [token])))
        ⟨blocks, statement :: body, .statement, token.span⟩ := by
    simpa using Reads.intro outerRead (beforeRead.push whole) .statement
  cases ended with
  | declare role =>
      refine completed fun rest => ?_
      cases headed with
      | declare typed declared named assigned =>
          simpa using ReadsStatement.declare typed declared named assigned derived role
  | assign role =>
      refine completed fun rest => ?_
      cases headed with
      | assign named assigned =>
          simpa using ReadsStatement.assign named assigned derived role
  | print role =>
      exact .intro outerRead beforeRead (.endOfPrint headed derived role)
  | conditional role =>
      exact .intro outerRead beforeRead (.openBrace (.consequent headed derived role))
  | loop role =>
      exact .intro outerRead beforeRead (.openBrace (.loop headed derived role))

/-- An operand of one token is derived from it. -/
theorem derives_of_operand
    {token : Token} {value : Expression}
    (found : operand? token = some value) :
    Derives .primary [token] value := by
  cases isOperand_of_operand? found with
  | number role =>
      exact .number role
  | string role =>
      exact .string role
  | name role =>
      exact .name role

theorem below_primary (waiting : List Waiting) :
    Waiting.Below Layer.primary.precedence waiting := by
  rcases waiting with _ | ⟨⟨left, operator, before⟩ | before, rest⟩
  · trivial
  · rw [Waiting.Below, ← Layer.precedence_of]
    exact Layer.of_lt_primary operator
  · trivial

/-- After an operand, joining at the precedence of a layer gives an expression of it. -/
theorem derives_of_settle_primary
    {before tokens : List Token} {waiting settled : List Waiting}
    {value joined : Expression} {opened count : Nat}
    (target : Layer)
    (outer : ReadsWaiting before waiting)
    (derived : Derives .primary tokens value)
    (settles : settle target.precedence waiting value opened = (settled, joined, count)) :
    ∃ outerTokens innerTokens,
      before ++ tokens = outerTokens ++ innerTokens ∧
        ReadsWaiting outerTokens settled ∧
          Waiting.Below target.precedence settled ∧
            Derives target innerTokens joined :=
  derives_of_settle outer (below_primary waiting) derived target.le_primary settles

/-- A move reads one token. -/
theorem Reads.move
    {bounds : Bounds} {tokens : List Token} {state next : State} {token : Token}
    (read : Reads tokens state)
    (moved : Move bounds state token next) :
    Reads (tokens ++ [token]) next := by
  rcases read with @⟨outer, before, current, blocks, body, expecting, last, outerRead, beforeRead,
    currentRead⟩
  rw [List.append_assoc, List.append_assoc]
  cases moved with
  | start starts =>
      cases currentRead with
      | statement =>
          exact .starts outerRead beforeRead starts
  | alternative role =>
      cases currentRead with
      | alternate owner block =>
          exact .intro outerRead beforeRead (.openBrace (.alternate owner block role))
  | @noAlternative _ _ _ _ start condition consequent _ starts =>
      cases currentRead with
      | @alternate front tokens _ _ _ owner block =>
          -- The conditional is complete, and the token starts the next statement.
          have whole : StatementTokens (front ++ tokens)
              (.ifThen condition consequent (start.merge last)) :=
            owner.statementTokens block last
          rw [← List.append_assoc _ (front ++ tokens)]
          exact .starts outerRead (beforeRead.push whole) starts
  | name role =>
      cases currentRead with
      | name typed declared =>
          exact .intro outerRead beforeRead
            (.assign fun equals assigned => .declare typed declared role assigned)
  | assign role =>
      cases currentRead with
      | assign headed =>
          have headingRead := headed token role
          simpa using Reads.intro outerRead beforeRead (.operand headingRead .nil)
  | openParen role =>
      cases currentRead with
      | openParen headed =>
          have headingRead := headed token role
          simpa using Reads.intro outerRead beforeRead (.operand headingRead .nil)
  | operand found =>
      cases currentRead with
      | operand headed outer =>
          rw [List.append_assoc]
          exact .intro outerRead beforeRead
            (.operator headed outer (derives_of_operand found))
  | paren role within =>
      cases currentRead with
      | operand headed outer =>
          rw [List.append_assoc]
          exact .intro outerRead beforeRead (.operand headed (.paren outer role))
  | parenTooDeep role beyond | braceTooDeep role beyond =>
      exact .intro outerRead beforeRead .tooDeep
  | @operator _ _ _ _ _ _ _ _ _ _ _ operator role joined within =>
      cases currentRead with
      | operator headed outer derived =>
          -- Joining stops below the operator, so the left operand belongs to its layer.
          rw [← Layer.precedence_of operator] at joined
          obtain ⟨outerTokens, innerTokens, same, outerRest, below, leftDerived⟩ :=
            derives_of_settle_primary (Layer.of operator) outer derived joined
          rw [same, List.append_assoc]
          exact .intro outerRead beforeRead (.operand headed
            (.operand outerRest below leftDerived role (Layer.mem_operators_of operator)))
  | closeParen role joined =>
      cases currentRead with
      | operator headed outer derived =>
          rw [settle_zero] at joined
          obtain ⟨outerTokens, innerTokens, same, outerRest, below, innerDerived⟩ :=
            derives_of_settle_primary .equality outer derived joined
          cases outerRest with
          | @paren before opening _ _ outerRest opens =>
              have grouped := Derives.paren opens innerDerived role
              rw [same]
              simpa using Reads.intro outerRead beforeRead (.operator headed outerRest grouped)
  | ends joined ended =>
      cases currentRead with
      | operator headed outer derived =>
          rw [settle_zero] at joined
          obtain ⟨outerTokens, innerTokens, same, outerRest, below, wholeDerived⟩ :=
            derives_of_settle_primary .equality outer derived joined
          cases outerRest with
          | nil =>
              rw [same, List.nil_append]
              exact .ends outerRead beforeRead headed wholeDerived ended
  | @endOfPrint _ _ _ _ _ value role =>
      cases currentRead with
      | @endOfPrint front tokens closing _ _ headed derived closes =>
          have whole (span : Span) :
              StatementTokens (front ++ tokens ++ [closing] ++ [token]) (.print value span) := by
            intro rest
            cases headed with
            | print printed opens =>
                simpa using ReadsStatement.print printed opens derived closes role
          simpa using Reads.intro outerRead (beforeRead.push (whole _)) .statement
  | @openBrace _ _ _ _ owner role within =>
      cases currentRead with
      | openBrace owned =>
          have blocksRead : ReadsBlocks _ (⟨owner, token.span, body⟩ :: blocks) :=
            .cons outerRead beforeRead owned role
          simpa using Reads.intro blocksRead .nil .statement

/-- The open blocks of a program end where the program ends. -/
theorem readsBody_of_finishBlocks
    {finish : Token} (ends : finish.role = .endOfInput) (last : Span)
    {outer inner : List Token} {blocks : List OpenBlock} {body : List Statement}
    (outerRead : ReadsBlocks outer blocks)
    (innerRead : ReadsBody (inner ++ [finish]) [finish] body.reverse) :
    ReadsBody (outer ++ (inner ++ [finish])) [finish]
      (State.finishBlocks last blocks body) := by
  induction outerRead generalizing inner body with
  | nil =>
      exact innerRead
  | @cons outer before front brace block blocks outerRead beforeRead owned opens
      inductionHypothesis =>
      have blockRead (span : Span) :
          ReadsBlock (brace :: (inner ++ [finish])) [finish] (.mk body.reverse span) :=
        .unclosed opens innerRead ends
      have statementRead := owned.complete (blockRead (block.start.merge last)) last
      have whole := beforeRead _ _ _ (.cons statementRead .nil)
      have extended :
          ReadsBody (before ++ (front ++ brace :: inner) ++ [finish]) [finish]
            (block.owner.complete (.mk body.reverse (block.start.merge last)) last ::
              block.before).reverse := by
        simpa using whole
      simpa [State.finishBlocks] using inductionHypothesis extended

/-- Tokens that are read up to a place where a program may end are a program. -/
theorem Reads.finish
    {tokens : List Token} {state : State} {body : List Statement} {finish : Token}
    (read : Reads tokens state)
    (ends : finish.role = .endOfInput)
    (finished : state.finish = .ok body) :
    ReadsBody (tokens ++ [finish]) [finish] body := by
  rcases read with @⟨outer, before, current, blocks, found, expecting, last, outerRead, beforeRead,
    currentRead⟩
  rw [List.append_assoc]
  cases currentRead with
  | statement =>
      cases finished
      apply readsBody_of_finishBlocks ends last outerRead
      simpa using beforeRead [finish] _ _ .nil
  | @alternate front tokens start condition consequent owner block =>
      cases finished
      have whole : StatementTokens (front ++ tokens)
          (.ifThen condition consequent (start.merge last)) :=
        owner.statementTokens block last
      apply readsBody_of_finishBlocks ends last outerRead
      simpa using beforeRead.push whole [finish] _ _ .nil
  | name | assign | openParen | operand | operator | endOfPrint | openBrace | tooDeep =>
      cases finished

/-- A list of tokens that is read to its end is a program. -/
theorem readsBody_of_readTo
    {bounds : Bounds} {ending finish : Token} {before items : List Token} {state : State}
    {body : List Statement} {last : Span}
    (read : Reads before state)
    (ends : finish.role = .endOfInput)
    (inside : ∀ token ∈ items, token.role ≠ .endOfInput)
    (accepted : state.readTo bounds ending (items ++ [finish]) = .ok (body, last)) :
    ReadsBody (before ++ (items ++ [finish])) [finish] body := by
  induction items generalizing before state with
  | nil =>
      rw [List.nil_append, State.readTo_of_finish ends] at accepted
      unfold State.readEnd at accepted
      split at accepted
      case h_1 found finished =>
        cases accepted
        exact read.finish ends finished
      case h_2 =>
        cases accepted
  | cons token rest inductionHypothesis =>
      have notFinish := inside token (by simp)
      cases stepped : state.step bounds token with
      | error refusal =>
          rw [List.cons_append, State.readTo_of_refused notFinish stepped] at accepted
          cases accepted
      | ok next =>
          have moved := State.step_eq_ok_iff.mp stepped
          rw [List.cons_append, moved.readTo] at accepted
          have whole := inductionHypothesis (read.move moved)
            (fun token member => inside token (by simp [member])) accepted
          simpa using whole

/-- What is read from a list that ends with the end of the input is derived by the grammar. -/
theorem readsBody_of_read
    {bounds : Bounds} {items : List Token} {finish : Token}
    {body : List Statement} {last : Span}
    (ends : finish.role = .endOfInput)
    (inside : ∀ token ∈ items, token.role ≠ .endOfInput)
    (accepted : read bounds (items ++ [finish]) = .ok (body, last)) :
    ReadsBody (items ++ [finish]) [finish] body := by
  rw [read_eq_readTo] at accepted
  simpa using readsBody_of_readTo Reads.initial ends inside accepted

end Bhasha.Reader
