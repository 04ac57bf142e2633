import Bhasha.Syntax.Reader.State

namespace Bhasha

/-!
# Reading one token

`State.step` takes one token to the next place or refuses it, `State.steps` takes
a run of tokens, and `State.finish` gives the statements of a program that ends
at a place.

A block that is open at the end of the input ends there.  Two bounds hold:
parentheses and blocks nest at most `bounds.nesting` deep, and at most
`bounds.operators` operators of one expression are open at once.  An operator
stays open until the operand that its chain is part of is complete.  A
parenthesis or brace beyond the nesting bound is still read; the token after it
is refused.
-/

namespace Reader

namespace State

/-- The place before the first token of a program. -/
def initial : State := ⟨[], [], .statement, Span.point Position.first⟩

/-- The place after a token, with what may come next. -/
def after (state : State) (token : Token) (expecting : Expecting) : State :=
  { state with expecting := expecting, last := token.span }

/-- A statement is complete after the last token read. -/
def push (state : State) (statement : Statement) : State :=
  { state with body := statement :: state.body, expecting := .statement }

/-- The token cannot be used here. -/
def refuse (state : State) : Except Refusal State := .error state.expecting.refusal

/-- The parentheses and blocks that are open around an expression. -/
def depth (state : State) (waiting : List Waiting) : Nat :=
  state.blocks.length + Waiting.parens waiting

/-- A block is opened by a brace, unless too many are open. -/
def openBlock (bounds : Bounds) (state : State) (token : Token) (owner : Owner) : State :=
  if state.depth [] < bounds.nesting then
    { blocks := ⟨owner, token.span, state.body⟩ :: state.blocks
      body := []
      expecting := .statement
      last := token.span }
  else state.after token .tooDeep

/-- The innermost block is closed by a brace. -/
def closeBlock (state : State) (token : Token) : Except Refusal State :=
  match state.blocks with
  | [] => .error (.wanted .statement)
  | block :: blocks =>
      let inner := Block.mk state.body.reverse (block.start.merge token.span)
      let outer : State := ⟨blocks, block.before, .statement, token.span⟩
      match block.owner with
      | .consequent start condition =>
          .ok { outer with expecting := .alternate start condition inner }
      | owner => .ok (outer.push (owner.complete inner token.span))

/-- A token where a statement may start, or where a block may end. -/
def startStatement (state : State) (token : Token) : Except Refusal State :=
  match token.role with
  | .keyword .print => .ok (state.after token (.openParen (.print token.span)))
  | .keyword .integer => .ok (state.after token (.name token.span .integer))
  | .keyword .float => .ok (state.after token (.name token.span .float))
  | .keyword .string => .ok (state.after token (.name token.span .string))
  | .keyword .conditional => .ok (state.after token (.openParen (.conditional token.span)))
  | .keyword .loop => .ok (state.after token (.openParen (.loop token.span)))
  | .identifier =>
      .ok (state.after token (.assign (.assign token.span ⟨token.lexeme, token.span⟩)))
  | .closeBrace => state.closeBlock token
  | _ => .error (.wanted .statement)

/-- A token where an operand must start. -/
def readOperand
    (bounds : Bounds)
    (state : State)
    (token : Token)
    (heading : Heading)
    (waiting : List Waiting) : Except Refusal State :=
  let opened := Waiting.opened waiting
  let found (value : Expression) : Except Refusal State :=
    .ok (state.after token (.operator heading waiting value opened))
  match token.role with
  | .number value => found (.literal (.number value) token.lexeme token.span)
  | .string => found (.literal (.string token.lexeme) s!"\"{token.lexeme}\"" token.span)
  | .identifier => found (.name token.lexeme token.span)
  | .openParen =>
      if state.depth waiting < bounds.nesting then
        .ok (state.after token (.operand heading (.paren opened :: waiting)))
      else .ok (state.after token .tooDeep)
  | _ => .error (.wanted .expression)

/-- A token after the last operand of the expression of a statement. -/
def endExpression
    (state : State)
    (token : Token)
    (heading : Heading)
    (value : Expression) : Except Refusal State :=
  match heading, token.role with
  | .declare start type name, .semicolon =>
      .ok ((state.after token .statement).push (.declare type name value (start.merge token.span)))
  | .assign start name, .semicolon =>
      .ok ((state.after token .statement).push (.assign name value (start.merge token.span)))
  | .print start, .closeParen => .ok (state.after token (.endOfPrint start value))
  | .conditional start, .closeParen =>
      .ok (state.after token (.openBrace (.consequent start value)))
  | .loop start, .closeParen => .ok (state.after token (.openBrace (.loop start value)))
  | _, _ => .error (.wanted heading.wantedAfter)

/-- A token after an operand: an operator, a closing parenthesis, or the end of the expression. -/
def readOperator
    (bounds : Bounds)
    (state : State)
    (token : Token)
    (heading : Heading)
    (waiting : List Waiting)
    (value : Expression)
    (opened : Nat) : Except Refusal State :=
  match token.role with
  | .binary operator =>
      let (waiting, left, opened) := settle operator.precedence waiting value opened
      if opened < bounds.operators then
        let waiting := .operand left operator (opened + 1) :: waiting
        .ok (state.after token (.operand heading waiting))
      else .error .operators
  | role =>
      match settle 0 waiting value opened with
      | (.paren before :: waiting, inner, _) =>
          if role = .closeParen then
            .ok (state.after token (.operator heading waiting inner before))
          else .error (.wanted .closeParen)
      | (_, whole, _) => state.endExpression token heading whole

/-- The place after one more token, or why the token is refused. -/
def step (bounds : Bounds) (state : State) (token : Token) : Except Refusal State :=
  match state.expecting with
  | .statement => state.startStatement token
  | .alternate start condition consequent =>
      match token.role with
      | .keyword .alternative =>
          .ok (state.after token (.openBrace (.alternate start condition consequent)))
      | _ =>
          (state.push (.ifThen condition consequent (start.merge state.last))).startStatement token
  | .name start type =>
      match token.role with
      | .identifier =>
          .ok (state.after token (.assign (.declare start type ⟨token.lexeme, token.span⟩)))
      | _ => state.refuse
  | .assign heading =>
      match token.role with
      | .assign => .ok (state.after token (.operand heading []))
      | _ => state.refuse
  | .openParen heading =>
      match token.role with
      | .openParen => .ok (state.after token (.operand heading []))
      | _ => state.refuse
  | .operand heading waiting => state.readOperand bounds token heading waiting
  | .operator heading waiting value opened =>
      state.readOperator bounds token heading waiting value opened
  | .endOfPrint start value =>
      match token.role with
      | .semicolon =>
          .ok ((state.after token .statement).push (.print value (start.merge token.span)))
      | _ => state.refuse
  | .openBrace owner =>
      match token.role with
      | .openBrace => .ok (state.openBlock bounds token owner)
      | _ => state.refuse
  | .tooDeep => state.refuse

/-- The statements of a program whose open blocks all end after the last token read. -/
def finishBlocks (last : Span) : List OpenBlock → List Statement → List Statement
  | [], body => body.reverse
  | block :: blocks, body =>
      let inner := Block.mk body.reverse (block.start.merge last)
      finishBlocks last blocks (block.owner.complete inner last :: block.before)

/-- The statements of a program that ends here, or why it cannot end here. -/
def finish (state : State) : Except Refusal (List Statement) :=
  match state.expecting with
  | .statement => .ok (finishBlocks state.last state.blocks state.body)
  | .alternate start condition consequent =>
      let statement := .ifThen condition consequent (start.merge state.last)
      .ok (finishBlocks state.last state.blocks (statement :: state.body))
  | expecting => .error expecting.refusal

/-- The place after a run of tokens, or the first token that is refused and why. -/
def steps (bounds : Bounds) (state : State) : List Token → Except (Token × Refusal) State
  | [] => .ok state
  | token :: tokens =>
      match state.step bounds token with
      | .ok next => next.steps bounds tokens
      | .error refusal => .error (token, refusal)

end State

end Reader

end Bhasha
