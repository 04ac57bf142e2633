import Bhasha.Proofs.Syntax.Grammar
import Bhasha.Syntax.Parse

namespace Bhasha.Reader

/-!
# The moves of a reader

`Move` lists once and for all what a token may do: from which place it leads to
which, and under what condition.  `State.step_eq_ok_iff` says that the list is
complete and that every move on it is taken, so a property of all places that a
reader comes to is shown by cases on the moves.

`State.readTo` reads a list of tokens up to its first end of input one token at
a time, and `read_eq_readTo` says that this is what `read` does.
-/

/-- The operand that a token is on its own, if it is one. -/
def operand? (token : Token) : Option Expression :=
  match token.role with
  | .number value => some (.literal (.number value) token.lexeme token.span)
  | .string => some (.literal (.string token.lexeme) s!"\"{token.lexeme}\"" token.span)
  | .identifier => some (.name token.lexeme token.span)
  | _ => none

/-- The operands that a token may be on its own. -/
inductive IsOperand (token : Token) : Expression → Prop
  | number
      {value : Float}
      (role : token.role = .number value) :
      IsOperand token (.literal (.number value) token.lexeme token.span)
  | string
      (role : token.role = .string) :
      IsOperand token (.literal (.string token.lexeme) s!"\"{token.lexeme}\"" token.span)
  | name
      (role : token.role = .identifier) :
      IsOperand token (.name token.lexeme token.span)

theorem isOperand_of_operand?
    {token : Token} {value : Expression}
    (found : operand? token = some value) :
    IsOperand token value := by
  unfold operand? at found
  split at found
  case h_1 role =>
    cases found
    exact .number role
  case h_2 role =>
    cases found
    exact .string role
  case h_3 role =>
    cases found
    exact .name role
  case h_4 =>
    cases found

/-- The place after the last token of a block, or after the last token of a program in it. -/
def State.afterBlock
    (blocks : List OpenBlock)
    (before : List Statement)
    (owner : Owner)
    (block : Block)
    (last : Span) : State :=
  match owner with
  | .consequent start condition => ⟨blocks, before, .alternate start condition block, last⟩
  | owner => ⟨blocks, owner.complete block last :: before, .statement, last⟩

/-- The moves of a token where a statement may start. -/
inductive Starts (blocks : List OpenBlock) (body : List Statement) (token : Token) : State → Prop
  | print
      (role : token.role = .keyword .print) :
      Starts blocks body token ⟨blocks, body, .openParen (.print token.span), token.span⟩
  | declare
      {keyword : Keyword} {type : DeclaredType}
      (role : token.role = .keyword keyword)
      (declared : Grammar.declaredType? keyword = some type) :
      Starts blocks body token ⟨blocks, body, .name token.span type, token.span⟩
  | conditional
      (role : token.role = .keyword .conditional) :
      Starts blocks body token ⟨blocks, body, .openParen (.conditional token.span), token.span⟩
  | loop
      (role : token.role = .keyword .loop) :
      Starts blocks body token ⟨blocks, body, .openParen (.loop token.span), token.span⟩
  | assign
      (role : token.role = .identifier) :
      Starts blocks body token
        ⟨blocks, body, .assign (.assign token.span ⟨token.lexeme, token.span⟩), token.span⟩
  | close
      {block : OpenBlock} {outer : List OpenBlock}
      (role : token.role = .closeBrace)
      (inside : blocks = block :: outer) :
      Starts blocks body token
        (.afterBlock outer block.before block.owner
          (.mk body.reverse (block.start.merge token.span)) token.span)

/-- The moves of a token that ends the expression of a statement. -/
inductive Ends
    (blocks : List OpenBlock)
    (body : List Statement)
    (value : Expression)
    (token : Token) : Heading → State → Prop
  | declare
      {start : Span} {type : DeclaredType} {name : Name}
      (role : token.role = .semicolon) :
      Ends blocks body value token (.declare start type name)
        ⟨blocks, .declare type name value (start.merge token.span) :: body, .statement, token.span⟩
  | assign
      {start : Span} {name : Name}
      (role : token.role = .semicolon) :
      Ends blocks body value token (.assign start name)
        ⟨blocks, .assign name value (start.merge token.span) :: body, .statement, token.span⟩
  | print
      {start : Span}
      (role : token.role = .closeParen) :
      Ends blocks body value token (.print start)
        ⟨blocks, body, .endOfPrint start value, token.span⟩
  | conditional
      {start : Span}
      (role : token.role = .closeParen) :
      Ends blocks body value token (.conditional start)
        ⟨blocks, body, .openBrace (.consequent start value), token.span⟩
  | loop
      {start : Span}
      (role : token.role = .closeParen) :
      Ends blocks body value token (.loop start)
        ⟨blocks, body, .openBrace (.loop start value), token.span⟩

/-- The moves of a token from one place to another. -/
inductive Move (bounds : Bounds) : State → Token → State → Prop
  | start
      {blocks : List OpenBlock} {body : List Statement} {last : Span}
      {token : Token} {next : State}
      (starts : Starts blocks body token next) :
      Move bounds ⟨blocks, body, .statement, last⟩ token next
  | alternative
      {blocks : List OpenBlock} {body : List Statement} {last : Span}
      {token : Token} {start : Span} {condition : Expression} {consequent : Block}
      (role : token.role = .keyword .alternative) :
      Move bounds ⟨blocks, body, .alternate start condition consequent, last⟩ token
        ⟨blocks, body, .openBrace (.alternate start condition consequent), token.span⟩
  | noAlternative
      {blocks : List OpenBlock} {body : List Statement} {last : Span}
      {token : Token} {start : Span} {condition : Expression} {consequent : Block} {next : State}
      (starts :
        Starts blocks (.ifThen condition consequent (start.merge last) :: body) token next) :
      Move bounds ⟨blocks, body, .alternate start condition consequent, last⟩ token next
  | name
      {blocks : List OpenBlock} {body : List Statement} {last : Span}
      {token : Token} {start : Span} {type : DeclaredType}
      (role : token.role = .identifier) :
      Move bounds ⟨blocks, body, .name start type, last⟩ token
        ⟨blocks, body, .assign (.declare start type ⟨token.lexeme, token.span⟩), token.span⟩
  | assign
      {blocks : List OpenBlock} {body : List Statement} {last : Span}
      {token : Token} {heading : Heading}
      (role : token.role = .assign) :
      Move bounds ⟨blocks, body, .assign heading, last⟩ token
        ⟨blocks, body, .operand heading [], token.span⟩
  | openParen
      {blocks : List OpenBlock} {body : List Statement} {last : Span}
      {token : Token} {heading : Heading}
      (role : token.role = .openParen) :
      Move bounds ⟨blocks, body, .openParen heading, last⟩ token
        ⟨blocks, body, .operand heading [], token.span⟩
  | operand
      {blocks : List OpenBlock} {body : List Statement} {last : Span}
      {token : Token} {heading : Heading} {waiting : List Waiting} {value : Expression}
      (found : operand? token = some value) :
      Move bounds ⟨blocks, body, .operand heading waiting, last⟩ token
        ⟨blocks, body, .operator heading waiting value (Waiting.opened waiting), token.span⟩
  | paren
      {blocks : List OpenBlock} {body : List Statement} {last : Span}
      {token : Token} {heading : Heading} {waiting : List Waiting}
      (role : token.role = .openParen)
      (within : blocks.length + Waiting.parens waiting < bounds.nesting) :
      Move bounds ⟨blocks, body, .operand heading waiting, last⟩ token
        ⟨blocks, body, .operand heading (.paren (Waiting.opened waiting) :: waiting), token.span⟩
  | parenTooDeep
      {blocks : List OpenBlock} {body : List Statement} {last : Span}
      {token : Token} {heading : Heading} {waiting : List Waiting}
      (role : token.role = .openParen)
      (beyond : bounds.nesting ≤ blocks.length + Waiting.parens waiting) :
      Move bounds ⟨blocks, body, .operand heading waiting, last⟩ token
        ⟨blocks, body, .tooDeep, token.span⟩
  | operator
      {blocks : List OpenBlock} {body : List Statement} {last : Span}
      {token : Token} {heading : Heading} {waiting settled : List Waiting}
      {value left : Expression} {opened before : Nat} {operator : BinaryOperator}
      (role : token.role = .binary operator)
      (joined : settle operator.precedence waiting value opened = (settled, left, before))
      (within : before < bounds.operators) :
      Move bounds ⟨blocks, body, .operator heading waiting value opened, last⟩ token
        ⟨blocks, body, .operand heading (.operand left operator (before + 1) :: settled),
          token.span⟩
  | closeParen
      {blocks : List OpenBlock} {body : List Statement} {last : Span}
      {token : Token} {heading : Heading} {waiting settled : List Waiting}
      {value inner : Expression} {opened before innermost : Nat}
      (role : token.role = .closeParen)
      (joined : settle 0 waiting value opened = (.paren before :: settled, inner, innermost)) :
      Move bounds ⟨blocks, body, .operator heading waiting value opened, last⟩ token
        ⟨blocks, body, .operator heading settled inner before, token.span⟩
  | ends
      {blocks : List OpenBlock} {body : List Statement} {last : Span}
      {token : Token} {heading : Heading} {waiting : List Waiting}
      {value whole : Expression} {opened before : Nat} {next : State}
      (joined : settle 0 waiting value opened = ([], whole, before))
      (ended : Ends blocks body whole token heading next) :
      Move bounds ⟨blocks, body, .operator heading waiting value opened, last⟩ token next
  | endOfPrint
      {blocks : List OpenBlock} {body : List Statement} {last : Span}
      {token : Token} {start : Span} {value : Expression}
      (role : token.role = .semicolon) :
      Move bounds ⟨blocks, body, .endOfPrint start value, last⟩ token
        ⟨blocks, .print value (start.merge token.span) :: body, .statement, token.span⟩
  | openBrace
      {blocks : List OpenBlock} {body : List Statement} {last : Span}
      {token : Token} {owner : Owner}
      (role : token.role = .openBrace)
      (within : blocks.length < bounds.nesting) :
      Move bounds ⟨blocks, body, .openBrace owner, last⟩ token
        ⟨⟨owner, token.span, body⟩ :: blocks, [], .statement, token.span⟩
  | braceTooDeep
      {blocks : List OpenBlock} {body : List Statement} {last : Span}
      {token : Token} {owner : Owner}
      (role : token.role = .openBrace)
      (beyond : bounds.nesting ≤ blocks.length) :
      Move bounds ⟨blocks, body, .openBrace owner, last⟩ token
        ⟨blocks, body, .tooDeep, token.span⟩

/-- No statement starts with the word between the blocks of a conditional. -/
theorem Starts.role_ne_alternative
    {blocks : List OpenBlock} {body : List Statement} {token : Token} {next : State}
    (starts : Starts blocks body token next) :
    token.role ≠ .keyword .alternative := by
  intro alternative
  cases starts with
  | declare role declared =>
      rw [alternative] at role
      cases role
      cases declared
  | print role | conditional role | loop role | assign role | close role inside =>
      rw [alternative] at role
      cases role

/-- Joining every waiting operand ends at a parenthesis or with nothing that waits. -/
theorem settle_zero_shape
    (waiting : List Waiting)
    (value : Expression)
    (opened : Nat) :
    (∃ whole before, settle 0 waiting value opened = ([], whole, before)) ∨
      ∃ before settled inner innermost,
        settle 0 waiting value opened = (.paren before :: settled, inner, innermost) := by
  induction waiting generalizing value opened with
  | nil =>
      exact .inl ⟨value, opened, rfl⟩
  | cons entry rest inductionHypothesis =>
      cases entry with
      | operand left operator before =>
          simpa only [settle, Nat.zero_le, ↓reduceIte] using
            inductionHypothesis (.join operator left value) before
      | paren before =>
          exact .inr ⟨before, rest, value, opened, rfl⟩

namespace State

/-- A closing brace closes the innermost block. -/
theorem closeBlock_cons
    (block : OpenBlock) (outer : List OpenBlock) (body : List Statement)
    (expecting : Expecting) (last : Span) (token : Token) :
    closeBlock ⟨block :: outer, body, expecting, last⟩ token =
      .ok (.afterBlock outer block.before block.owner
        (.mk body.reverse (block.start.merge token.span)) token.span) := by
  rcases block with ⟨owner, start, before⟩
  cases owner <;> rfl

/-- A token starts a statement exactly by one of the moves of `Starts`. -/
theorem startStatement_eq_ok_iff
    {blocks : List OpenBlock} {body : List Statement} {expecting : Expecting} {last : Span}
    {token : Token} {next : State} :
    startStatement ⟨blocks, body, expecting, last⟩ token = .ok next ↔
      Starts blocks body token next := by
  constructor
  · intro accepted
    unfold startStatement at accepted
    split at accepted
    case h_1 role =>
      cases accepted
      exact .print role
    case h_2 role =>
      cases accepted
      exact .declare role rfl
    case h_3 role =>
      cases accepted
      exact .declare role rfl
    case h_4 role =>
      cases accepted
      exact .declare role rfl
    case h_5 role =>
      cases accepted
      exact .conditional role
    case h_6 role =>
      cases accepted
      exact .loop role
    case h_7 role =>
      cases accepted
      exact .assign role
    case h_8 role =>
      cases blocks with
      | nil =>
          cases accepted
      | cons block outer =>
          rw [closeBlock_cons] at accepted
          cases accepted
          exact .close role rfl
    case h_9 =>
      cases accepted
  · intro starts
    cases starts with
    | print role =>
        simp [startStatement, role, after]
    | @declare keyword type role declared =>
        cases keyword <;> cases declared <;> simp [startStatement, role, after]
    | conditional role =>
        simp [startStatement, role, after]
    | loop role =>
        simp [startStatement, role, after]
    | assign role =>
        simp [startStatement, role, after]
    | close role inside =>
        simp only [startStatement, role, inside, closeBlock_cons]

/-- A token ends an expression exactly by one of the moves of `Ends`. -/
theorem endExpression_eq_ok_iff
    {blocks : List OpenBlock} {body : List Statement} {expecting : Expecting} {last : Span}
    {token : Token} {heading : Heading} {value : Expression} {next : State} :
    endExpression ⟨blocks, body, expecting, last⟩ token heading value = .ok next ↔
      Ends blocks body value token heading next := by
  constructor
  · intro accepted
    unfold endExpression at accepted
    split at accepted
    case h_1 role =>
      cases accepted
      exact .declare role
    case h_2 role =>
      cases accepted
      exact .assign role
    case h_3 role =>
      cases accepted
      exact .print role
    case h_4 role =>
      cases accepted
      exact .conditional role
    case h_5 role =>
      cases accepted
      exact .loop role
    case h_6 =>
      cases accepted
  · intro ended
    cases ended with
    | declare role | assign role | print role | conditional role | loop role =>
        simp [endExpression, role, after, push]

/-- Where a statement may start, what is wanted is a statement. -/
theorem startStatement_eq_error
    {state : State} {token : Token} {refusal : Refusal}
    (refused : state.startStatement token = .error refusal) :
    refusal = .wanted .statement := by
  unfold startStatement closeBlock at refused
  repeat' split at refused
  all_goals cases refused
  all_goals rfl

/-- Where an expression ends, what is wanted is what follows it. -/
theorem endExpression_eq_error
    {state : State} {token : Token} {heading : Heading} {value : Expression} {refusal : Refusal}
    (refused : state.endExpression token heading value = .error refusal) :
    refusal = .wanted heading.wantedAfter := by
  unfold endExpression at refused
  split at refused <;> cases refused
  rfl

/-- What is wanted where a program cannot end is known from the place. -/
theorem finish_eq_error
    {state : State} {refusal : Refusal}
    (refused : state.finish = .error refusal) :
    state.expecting.refusal = refusal := by
  rcases state with ⟨blocks, body, expecting, last⟩
  cases expecting with
  | statement | alternate =>
      cases refused
  | name | assign | openParen | operand | operator | endOfPrint | openBrace | tooDeep =>
      cases refused
      rfl

/-- A token is read after an operand exactly by a move from there. -/
theorem readOperator_eq_ok_iff
    {bounds : Bounds}
    {blocks : List OpenBlock} {body : List Statement} {last : Span}
    {token : Token} {heading : Heading} {waiting : List Waiting}
    {value : Expression} {opened : Nat} {next : State} :
    readOperator bounds ⟨blocks, body, .operator heading waiting value opened, last⟩
        token heading waiting value opened = .ok next ↔
      Move bounds ⟨blocks, body, .operator heading waiting value opened, last⟩ token next := by
  constructor
  · intro accepted
    unfold readOperator at accepted
    split at accepted
    case h_1 operator role =>
      rcases joined : settle operator.precedence waiting value opened with ⟨settled, left, before⟩
      simp only [joined] at accepted
      split at accepted
      case isTrue within =>
        cases accepted
        exact .operator role joined within
      case isFalse =>
        cases accepted
    case h_2 notBinary =>
      rcases settle_zero_shape waiting value opened with
        ⟨whole, before, joined⟩ | ⟨before, settled, inner, innermost, joined⟩
      · simp only [joined] at accepted
        exact .ends joined (endExpression_eq_ok_iff.mp accepted)
      · simp only [joined] at accepted
        split at accepted
        case isTrue role =>
          cases accepted
          exact .closeParen role joined
        case isFalse =>
          cases accepted
  · intro move
    cases move with
    | operator role joined within =>
        simp only [readOperator, role, joined, within, ↓reduceIte]
        rfl
    | closeParen role joined =>
        simp only [readOperator, role, joined, ↓reduceIte]
        rfl
    | ends joined ended =>
        cases ended with
        | declare role | assign role | print role | conditional role | loop role =>
            simp only [readOperator, role, joined]
            simp [endExpression, role, after, push]

/-- A conditional whose block is followed by anything else has no second block. -/
theorem step_alternate
    {bounds : Bounds} {blocks : List OpenBlock} {body : List Statement} {last : Span}
    {token : Token} {start : Span} {condition : Expression} {consequent : Block}
    (notAlternative : token.role ≠ .keyword .alternative) :
    step bounds ⟨blocks, body, .alternate start condition consequent, last⟩ token =
      startStatement
        ⟨blocks, .ifThen condition consequent (start.merge last) :: body, .statement, last⟩
        token := by
  simp only [step]
  rfl

/-- A token is accepted exactly by a move of the list. -/
theorem step_eq_ok_iff
    {bounds : Bounds} {state next : State} {token : Token} :
    state.step bounds token = .ok next ↔ Move bounds state token next := by
  rcases state with ⟨blocks, body, expecting, last⟩
  constructor
  · intro accepted
    -- A token that makes no move here is refused, which contradicts that it is accepted.
    cases expecting with
    | statement =>
        exact .start (startStatement_eq_ok_iff.mp accepted)
    | alternate start condition consequent =>
        simp only [step] at accepted
        split at accepted
        case h_1 role =>
          cases accepted
          exact .alternative role
        case h_2 =>
          exact .noAlternative (startStatement_eq_ok_iff.mp accepted)
    | name start type =>
        simp only [step] at accepted
        split at accepted
        case h_1 role =>
          cases accepted
          exact .name role
        case h_2 =>
          cases accepted
    | assign heading =>
        simp only [step] at accepted
        split at accepted
        case h_1 role =>
          cases accepted
          exact .assign role
        case h_2 =>
          cases accepted
    | openParen heading =>
        simp only [step] at accepted
        split at accepted
        case h_1 role =>
          cases accepted
          exact .openParen role
        case h_2 =>
          cases accepted
    | operand heading waiting =>
        simp only [step, readOperand] at accepted
        split at accepted
        case h_1 value role =>
          cases accepted
          exact .operand (by simp [operand?, role])
        case h_2 role =>
          cases accepted
          exact .operand (by simp [operand?, role])
        case h_3 role =>
          cases accepted
          exact .operand (by simp [operand?, role])
        case h_4 role =>
          split at accepted
          case isTrue within =>
            cases accepted
            exact .paren role within
          case isFalse beyond =>
            cases accepted
            exact .parenTooDeep role (Nat.not_lt.mp beyond)
        case h_5 =>
          cases accepted
    | operator heading waiting value opened =>
        exact readOperator_eq_ok_iff.mp accepted
    | endOfPrint start value =>
        simp only [step] at accepted
        split at accepted
        case h_1 role =>
          cases accepted
          exact .endOfPrint role
        case h_2 =>
          cases accepted
    | openBrace owner =>
        simp only [step] at accepted
        split at accepted
        case h_1 role =>
          simp only [openBlock] at accepted
          split at accepted
          case isTrue within =>
            cases accepted
            exact .openBrace role within
          case isFalse beyond =>
            cases accepted
            exact .braceTooDeep role (Nat.not_lt.mp beyond)
        case h_2 =>
          cases accepted
    | tooDeep =>
        cases accepted
  · intro move
    cases move with
    | start starts =>
        exact startStatement_eq_ok_iff.mpr starts
    | alternative role =>
        simp [step, role, after]
    | noAlternative starts =>
        rw [step_alternate starts.role_ne_alternative]
        exact startStatement_eq_ok_iff.mpr starts
    | name role | assign role | openParen role | endOfPrint role =>
        simp [step, role, after, push]
    | operand found =>
        simp only [step, readOperand]
        cases isOperand_of_operand? found with
        | number role | string role | name role =>
            simp [role, after]
    | paren role within =>
        simp [step, readOperand, depth, role, within, after]
    | parenTooDeep role beyond =>
        simp [step, readOperand, depth, role, Nat.not_lt.mpr beyond, after]
    | operator role joined within =>
        exact readOperator_eq_ok_iff.mpr (.operator role joined within)
    | closeParen role joined =>
        exact readOperator_eq_ok_iff.mpr (.closeParen role joined)
    | ends joined ended =>
        exact readOperator_eq_ok_iff.mpr (.ends joined ended)
    | openBrace role within =>
        simp [step, openBlock, depth, Waiting.parens, role, within]
    | braceTooDeep role beyond =>
        simp [step, openBlock, depth, Waiting.parens, role, Nat.not_lt.mpr beyond, after]

end State

theorem Starts.role_ne_endOfInput
    {blocks : List OpenBlock} {body : List Statement} {token : Token} {next : State}
    (starts : Starts blocks body token next) :
    token.role ≠ .endOfInput := by
  intro finish
  cases starts with
  | print role | declare role declared | conditional role | loop role | assign role
  | close role inside =>
      rw [finish] at role
      cases role

/-- The end of the input is no move: it is what `State.finish` is for. -/
theorem Move.role_ne_endOfInput
    {bounds : Bounds} {state next : State} {token : Token}
    (move : Move bounds state token next) :
    token.role ≠ .endOfInput := by
  cases move with
  | start starts | noAlternative starts =>
      exact starts.role_ne_endOfInput
  | operand found =>
      intro finish
      simp [operand?, finish] at found
  | ends joined ended =>
      intro finish
      cases ended with
      | declare role | assign role | print role | conditional role | loop role =>
          rw [finish] at role
          cases role
  | alternative role | name role | assign role | openParen role | paren role within
  | parenTooDeep role beyond | operator role joined within | closeParen role joined
  | endOfPrint role | openBrace role within | braceTooDeep role beyond =>
      intro finish
      rw [finish] at role
      cases role

end Bhasha.Reader

namespace Bhasha.Role

/-- The role of an operator or of punctuation. -/
def isMark : Role → Bool
  | .keyword _ | .identifier | .number _ | .string | .endOfInput => false
  | .assign | .binary _ | .openParen | .closeParen | .openBrace | .closeBrace | .semicolon
  | .unusable => true

end Bhasha.Role

namespace Bhasha.Token

theorem isMark_operatorRole (lexeme : String) :
    (operatorRole lexeme).isMark = true := by
  unfold operatorRole
  split
  · rfl
  · split <;> rfl

theorem isMark_punctuationRole (lexeme : String) :
    (punctuationRole lexeme).isMark = true := by
  unfold punctuationRole
  repeat' split
  all_goals rfl

/-- An operator and punctuation have no role of another kind. -/
theorem role_ne_of_isMark
    {token : Token} {role : Role}
    (isMark : token.role.isMark = true)
    (noMark : role.isMark = false) :
    token.role ≠ role := by
  rintro rfl
  rw [isMark] at noMark
  cases noMark

/-- Only the end of the input has its role. -/
theorem role_eq_endOfInput_iff (token : Token) :
    token.role = .endOfInput ↔ token.isFinish = true := by
  rcases token with ⟨kind, lexeme, span⟩
  cases kind with
  | operator =>
      exact iff_of_false (role_ne_of_isMark (isMark_operatorRole lexeme) rfl) nofun
  | punctuation =>
      exact iff_of_false (role_ne_of_isMark (isMark_punctuationRole lexeme) rfl) nofun
  | keyword | identifier | number | string | endOfInput =>
      simp [role, isFinish]

/-- Only an identifier has its role. -/
theorem role_eq_identifier_iff (token : Token) :
    token.role = .identifier ↔ token.kind = .identifier := by
  rcases token with ⟨kind, lexeme, span⟩
  cases kind with
  | operator =>
      exact iff_of_false (role_ne_of_isMark (isMark_operatorRole lexeme) rfl) nofun
  | punctuation =>
      exact iff_of_false (role_ne_of_isMark (isMark_punctuationRole lexeme) rfl) nofun
  | keyword | identifier | number | string | endOfInput =>
      simp [role]

/-- Only a string has its role. -/
theorem role_eq_string_iff (token : Token) :
    token.role = .string ↔ token.kind = .string := by
  rcases token with ⟨kind, lexeme, span⟩
  cases kind with
  | operator =>
      exact iff_of_false (role_ne_of_isMark (isMark_operatorRole lexeme) rfl) nofun
  | punctuation =>
      exact iff_of_false (role_ne_of_isMark (isMark_punctuationRole lexeme) rfl) nofun
  | keyword | identifier | number | string | endOfInput =>
      simp [role]

end Bhasha.Token

namespace Bhasha.Reader

/-! Reading a list of tokens one at a time -/

/-- The statements of a program that ends with a token, or why it cannot end there. -/
def State.readEnd (state : State) (finish : Token) :
    Except (Token × Refusal) (List Statement × Span) :=
  match state.finish with
  | .ok body => .ok (body, state.last)
  | .error refusal => .error (finish, refusal)

/-- Read tokens up to their first end of input, which is `ending` when they have none. -/
def State.readTo (bounds : Bounds) (ending : Token) (state : State) :
    List Token → Except (Token × Refusal) (List Statement × Span)
  | [] => state.readEnd ending
  | token :: tokens =>
      if token.isFinish then state.readEnd token
      else
        match state.step bounds token with
        | .ok next => next.readTo bounds ending tokens
        | .error refusal => .error (token, refusal)

/-- A move is followed by reading the tokens that remain. -/
theorem Move.readTo
    {bounds : Bounds} {state next : State} {token : Token}
    (move : Move bounds state token next)
    (ending : Token)
    (tokens : List Token) :
    state.readTo bounds ending (token :: tokens) = next.readTo bounds ending tokens := by
  have notFinish : token.isFinish = false := by
    simpa [Token.role_eq_endOfInput_iff] using move.role_ne_endOfInput
  simp only [State.readTo, notFinish, Bool.false_eq_true, ↓reduceIte,
    State.step_eq_ok_iff.mpr move]

/-- A token that is refused ends the reading. -/
theorem State.readTo_of_refused
    {bounds : Bounds} {state : State} {token : Token} {refusal : Refusal}
    (notFinish : token.role ≠ .endOfInput)
    (refused : state.step bounds token = .error refusal)
    (ending : Token)
    (tokens : List Token) :
    state.readTo bounds ending (token :: tokens) = .error (token, refusal) := by
  rw [Ne, Token.role_eq_endOfInput_iff, Bool.not_eq_true] at notFinish
  simp only [State.readTo, notFinish, Bool.false_eq_true, ↓reduceIte, refused]

/-- The end of the input is read by ending the program. -/
theorem State.readTo_of_finish
    {token : Token}
    (finish : token.role = .endOfInput)
    (bounds : Bounds)
    (ending : Token)
    (state : State)
    (tokens : List Token) :
    state.readTo bounds ending (token :: tokens) = state.readEnd token := by
  rw [Token.role_eq_endOfInput_iff] at finish
  simp only [State.readTo, finish, ↓reduceIte]

/-- Reading one token at a time takes the steps of the items and then ends the program. -/
theorem State.steps_bind_readEnd
    (bounds : Bounds)
    (ending : Token)
    (state : State)
    (tokens : List Token) :
    ((state.steps bounds (itemsOf tokens)).bind fun state =>
        state.readEnd ((tokens.find? Token.isFinish).getD ending)) =
      state.readTo bounds ending tokens := by
  induction tokens generalizing state with
  | nil =>
      rfl
  | cons token rest inductionHypothesis =>
      by_cases finish : token.isFinish = true
      · simp [itemsOf, State.readTo, finish, State.steps, Except.bind]
      · have items : itemsOf (token :: rest) = token :: itemsOf rest := by
          simp [itemsOf, finish]
        rw [items, List.find?_cons_of_neg finish]
        simp only [State.readTo, State.steps, finish, Bool.false_eq_true, ↓reduceIte]
        cases stepped : state.step bounds token with
        | ok next =>
            exact inductionHypothesis next
        | error refusal =>
            rfl

/-- Reading a list is reading its tokens one at a time from the first place. -/
theorem read_eq_readTo
    (bounds : Bounds)
    (tokens : List Token) :
    read bounds tokens = State.initial.readTo bounds (finishAfter tokens) tokens := by
  rw [← State.steps_bind_readEnd, read]
  cases State.initial.steps bounds (itemsOf tokens) <;> rfl

end Bhasha.Reader
