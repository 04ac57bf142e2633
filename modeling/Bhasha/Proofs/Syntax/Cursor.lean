import Bhasha.Proofs.Syntax.Openings

namespace Bhasha.Reader

/-!
# Recursive descent with a cursor

Programs can be read as well by functions that call one another, one for each rule
of the grammar, with a cursor into the list of all tokens.  The cursor looks its
tokens up by their index, and that may fail; calls may nest as deep as a number
says, so a descent may also run out of them.

Here the descent is written down, with the results of the parts that call no other.
`Descent.Runs` says what a part does from a place of the cursor, and has a rule for
each way to put parts together.
-/

/-- Why a descent stops before its end. -/
inductive Halt where
  | outside
  | exhausted
  | refused (token : Token) (refusal : Refusal)

/-- The index of the next token, what is open around it, and the operators that are open. -/
structure Cursor where
  index : Nat
  depth : Nat
  operators : Nat
  deriving Repr, DecidableEq

/-- The cursor before the first token. -/
def Cursor.initial : Cursor := ⟨0, 0, 0⟩

/-- The cursor after one more token. -/
def Cursor.next (cursor : Cursor) : Cursor := { cursor with index := cursor.index + 1 }

/-- A part of a descent: it moves a cursor and gives a result, unless it stops. -/
abbrev Descent := ExceptT Halt (StateM Cursor)

/-- What comes of a part of a descent, and where the cursor is then. -/
def Descent.from (run : Descent α) (cursor : Cursor) : Except Halt α × Cursor :=
  run.run.run cursor

/-- The role of the only tokens that may be used where something is wanted. -/
def Wanted.role? : Wanted → Option Role
  | openParen => some .openParen
  | closeParen => some .closeParen
  | openBrace => some .openBrace
  | semicolon => some .semicolon
  | assign => some .assign
  | identifier => some .identifier
  | expression | statement => none

/-- Nothing that is wanted is the end of the input. -/
theorem Wanted.role_ne_endOfInput
    {role : Role}
    (wanted : Wanted)
    (expected : some role = wanted.role?) :
    role ≠ .endOfInput := by
  rintro rfl
  cases wanted <;> cases expected

/-- The operator that a token is, if it binds at least as tightly as a precedence. -/
def tightOperator? (precedence : Nat) (token : Token) : Option BinaryOperator :=
  match token.role with
  | .binary operator => if precedence ≤ operator.precedence then some operator else none
  | _ => none

theorem tightOperator?_eq_some
    {precedence : Nat} {token : Token} {operator : BinaryOperator}
    (tight : tightOperator? precedence token = some operator) :
    token.role = .binary operator ∧ precedence ≤ operator.precedence := by
  unfold tightOperator? at tight
  split at tight
  case h_1 other role =>
    split at tight <;> cases tight
    exact ⟨role, ‹_›⟩
  case h_2 =>
    cases tight

/-- The span of the token before an index; before the first token it is the first position. -/
def spanBefore? (tokens : List Token) : Nat → Option Span
  | 0 => some (Span.point Position.first)
  | index + 1 => tokens[index]?.map Token.span

/-- The tokens that a descent holds: an end of the input is added where the last is none. -/
def heldTokens (tokens : List Token) : List Token :=
  if tokens.getLast?.any Token.isFinish then tokens else tokens ++ [finishAfter tokens]

namespace Descent

section

variable (bounds : Bounds) (tokens : List Token)

/-- The token at the cursor. -/
def here : Descent Token := do
  match tokens[(← get).index]? with
  | some token => return token
  | none => throw .outside

/-- Move beyond the token at the cursor, unless it is an end of the input. -/
def advance : Descent Token := do
  let token ← here tokens
  if token.isFinish then return token
  else
    modify Cursor.next
    return token

/-- The span of the token before the cursor. -/
def previous : Descent Span := do
  match spanBefore? tokens (← get).index with
  | some span => return span
  | none => throw .outside

/-- The token at the cursor is refused. -/
def refuse (refusal : Refusal) : Descent α := do
  throw (.refused (← here tokens) refusal)

/-- Move beyond a token that is wanted. -/
def expect (wanted : Wanted) : Descent Token := do
  if some (← here tokens).role = wanted.role? then advance tokens
  else refuse tokens (.wanted wanted)

/-- One more parenthesis or block is open. -/
def enter : Descent Unit := do
  modify fun cursor => { cursor with depth := cursor.depth + 1 }
  if bounds.nesting < (← get).depth then refuse tokens .nesting

/-- A parenthesis or block is closed. -/
def leave : Descent Unit :=
  modify fun cursor => { cursor with depth := cursor.depth - 1 }

/-- One more operator is open. -/
def openOperator : Descent Unit := do
  modify fun cursor => { cursor with operators := cursor.operators + 1 }
  if bounds.operators < (← get).operators then refuse tokens .operators

/-- The operators of a chain are closed. -/
def closeOperators (count : Nat) : Descent Unit :=
  modify fun cursor => { cursor with operators := cursor.operators - count }

mutual

/-- An operand and the chain of operators after it that bind tightly enough. -/
def expression : (calls : Nat) → (precedence : Nat) → Descent Expression
  | 0, _ => throw .exhausted
  | calls + 1, precedence => do
      let left ← primary calls
      chain calls precedence left 0

/-- The operators of a chain that remain after some of them. -/
def chain :
    (calls : Nat) → (precedence : Nat) → (left : Expression) → (count : Nat) →
      Descent Expression
  | 0, _, _, _ => throw .exhausted
  | calls + 1, precedence, left, count => do
      match tightOperator? precedence (← here tokens) with
      | some operator =>
          openOperator bounds tokens
          let _ ← advance tokens
          let right ← expression calls (operator.precedence + 1)
          chain calls precedence (.join operator left right) (count + 1)
      | none =>
          closeOperators count
          return left

/-- A literal, a name, or an expression in parentheses. -/
def primary : (calls : Nat) → Descent Expression
  | 0 => throw .exhausted
  | calls + 1 => do
      let token ← here tokens
      match operand? token with
      | some value =>
          let _ ← advance tokens
          return value
      | none =>
          if token.role = .openParen then
            let _ ← advance tokens
            enter bounds tokens
            let inner ← expression calls 1
            leave
            let _ ← expect tokens .closeParen
            return inner
          else refuse tokens (.wanted .expression)

end

/-- The expression of a statement, between two tokens that are wanted around it. -/
def enclosed (before after : Wanted) (calls : Nat) : Descent Expression := do
  let _ ← expect tokens before
  let value ← expression bounds tokens calls 1
  let _ ← expect tokens after
  return value

/-- A print statement. -/
def printing (calls : Nat) : Descent Statement := do
  let word ← advance tokens
  let value ← enclosed bounds tokens .openParen .closeParen calls
  let _ ← expect tokens .semicolon
  return .print value (word.span.merge (← previous tokens))

/-- A declaration. -/
def declaration (type : DeclaredType) (calls : Nat) : Descent Statement := do
  let word ← advance tokens
  let name ← expect tokens .identifier
  let value ← enclosed bounds tokens .assign .semicolon calls
  return .declare type ⟨name.lexeme, name.span⟩ value (word.span.merge (← previous tokens))

/-- An assignment. -/
def assignment (calls : Nat) : Descent Statement := do
  let name ← expect tokens .identifier
  let value ← enclosed bounds tokens .assign .semicolon calls
  return .assign ⟨name.lexeme, name.span⟩ value (name.span.merge (← previous tokens))

/-- Move beyond a brace that closes a block, if it is at the cursor. -/
def closing : Descent Unit := do
  if (← here tokens).role = .closeBrace then
    let _ ← advance tokens

mutual

/-- A statement. -/
def statement : (calls : Nat) → Descent Statement
  | 0 => throw .exhausted
  | calls + 1 => do
      match (← here tokens).role with
      | .keyword .print => printing bounds tokens calls
      | .keyword .integer => declaration bounds tokens .integer calls
      | .keyword .float => declaration bounds tokens .float calls
      | .keyword .string => declaration bounds tokens .string calls
      | .keyword .conditional => conditional calls
      | .keyword .loop => loop calls
      | .identifier => assignment bounds tokens calls
      | _ => refuse tokens (.wanted .statement)

/-- A conditional, with a second block if the word for it follows the first. -/
def conditional : (calls : Nat) → Descent Statement
  | 0 => throw .exhausted
  | calls + 1 => do
      let word ← advance tokens
      let condition ← enclosed bounds tokens .openParen .closeParen calls
      let consequent ← block calls
      if (← here tokens).role = .keyword .alternative then
        let _ ← advance tokens
        let alternate ← block calls
        return .ifElse condition consequent alternate (word.span.merge (← previous tokens))
      else
        return .ifThen condition consequent (word.span.merge (← previous tokens))

/-- A loop. -/
def loop : (calls : Nat) → Descent Statement
  | 0 => throw .exhausted
  | calls + 1 => do
      let word ← advance tokens
      let condition ← enclosed bounds tokens .openParen .closeParen calls
      let body ← block calls
      return .loop condition body (word.span.merge (← previous tokens))

/-- A block, which ends with a brace or with the input. -/
def block : (calls : Nat) → Descent Block
  | 0 => throw .exhausted
  | calls + 1 => do
      let opening ← expect tokens .openBrace
      enter bounds tokens
      let body ← statements calls true []
      closing tokens
      leave
      return .mk body (opening.span.merge (← previous tokens))

/-- The statements up to the end of the input, or up to the brace that closes their block. -/
def statements :
    (calls : Nat) → (inBlock : Bool) → (before : List Statement) → Descent (List Statement)
  | 0, _, _ => throw .exhausted
  | calls + 1, inBlock, before => do
      let token ← here tokens
      if token.isFinish ∨ inBlock ∧ token.role = .closeBrace then return before.reverse
      else
        let next ← statement calls
        statements calls inBlock (next :: before)

end

/-- A program: its statements, and the span from its first token to its last. -/
def program (calls : Nat) : Descent Program := do
  let first ← here tokens
  let body ← statements bounds tokens calls false []
  if body.isEmpty then return ⟨body, first.span⟩
  else return ⟨body, first.span.merge (← previous tokens)⟩

end

/-- A descent over some tokens within the bounds of every program that is read. -/
def parse (tokens : List Token) (calls : Nat) : Except Halt Program × Cursor :=
  (program .standard (heldTokens tokens) calls).from .initial

/-! Results of the parts of a descent -/

@[simp] theorem from_pure (value : α) (cursor : Cursor) :
    (pure value : Descent α).from cursor = (.ok value, cursor) :=
  rfl

@[simp] theorem from_throw (halt : Halt) (cursor : Cursor) :
    (throw halt : Descent α).from cursor = (.error halt, cursor) :=
  rfl

@[simp] theorem from_get (cursor : Cursor) :
    (get : Descent Cursor).from cursor = (.ok cursor, cursor) :=
  rfl

@[simp] theorem from_modify (change : Cursor → Cursor) (cursor : Cursor) :
    (modify change : Descent Unit).from cursor = (.ok (), change cursor) :=
  rfl

/-- A part of a descent is followed by another, unless it stops. -/
theorem from_bind (first : Descent α) (following : α → Descent β) (cursor : Cursor) :
    (first >>= following).from cursor =
      match first.from cursor with
      | (.ok value, next) => (following value).from next
      | (.error halt, next) => (.error halt, next) := by
  rw [Descent.from, ExceptT.run_bind, StateT.run_bind, Descent.from]
  rcases first.run.run cursor with ⟨halt | value, next⟩ <;> rfl

/--
A part of a descent moves a cursor forward, up to an index at most.

What it gives at its end is good, or it stops for one of some reasons.
-/
def Runs
    (stop : Nat)
    (run : Descent α)
    (cursor : Cursor)
    (good : α → Cursor → Prop)
    (stops : Halt → Prop) : Prop :=
  cursor.index ≤ (run.from cursor).2.index ∧ (run.from cursor).2.index ≤ stop ∧
    match run.from cursor with
    | (.ok value, next) => good value next
    | (.error halt, _) => stops halt

namespace Runs

variable
  {stop : Nat} {cursor : Cursor} {run : Descent α}
  {good better : α → Cursor → Prop} {stops : Halt → Prop}

/-- What follows a part goes on where the part ends, and stops for the same reasons. -/
theorem bind
    {following : α → Descent β} {last : β → Cursor → Prop}
    (first : Runs stop run cursor good stops)
    (rest : ∀ value next, cursor.index ≤ next.index → next.index ≤ stop → good value next →
      Runs stop (following value) next last stops) :
    Runs stop (run >>= following) cursor last stops := by
  unfold Runs at first ⊢
  rw [from_bind]
  rcases outcome : run.from cursor with ⟨halt | value, next⟩
  · rw [outcome] at first
    exact first
  · rw [outcome] at first
    obtain ⟨forward, within, reached⟩ := first
    obtain ⟨further, inside, ended⟩ := rest value next forward within reached
    exact ⟨Nat.le_trans forward further, inside, ended⟩

/-- A part with a known result is followed by another. -/
theorem step
    {first : Descent β} {following : β → Descent α} {value : β} {next : Cursor}
    (result : first.from cursor = (.ok value, next))
    (forward : cursor.index ≤ next.index)
    (rest : Runs stop (following value) next good stops) :
    Runs stop (first >>= following) cursor good stops := by
  unfold Runs at rest ⊢
  rw [from_bind, result]
  exact ⟨Nat.le_trans forward rest.1, rest.2⟩

/-- A part with a known result ends with it. -/
theorem done
    {value : α} {next : Cursor}
    (result : run.from cursor = (.ok value, next))
    (forward : cursor.index ≤ next.index)
    (within : next.index ≤ stop)
    (reached : good value next) :
    Runs stop run cursor good stops := by
  unfold Runs
  rw [result]
  exact ⟨forward, within, reached⟩

/-- A part that is known to stop does so for its reason. -/
theorem halt
    {halt : Halt} {next : Cursor}
    (result : run.from cursor = (.error halt, next))
    (forward : cursor.index ≤ next.index)
    (within : next.index ≤ stop)
    (reason : stops halt) :
    Runs stop run cursor good stops := by
  unfold Runs
  rw [result]
  exact ⟨forward, within, reason⟩

/-- Nothing follows a part that is known to stop. -/
theorem halt_first
    {first : Descent β} {following : β → Descent α} {halt : Halt} {next : Cursor}
    (result : first.from cursor = (.error halt, next))
    (forward : cursor.index ≤ next.index)
    (within : next.index ≤ stop)
    (reason : stops halt) :
    Runs stop (first >>= following) cursor good stops :=
  .halt (by rw [from_bind, result]) forward within reason

theorem pure
    {value : α}
    (within : cursor.index ≤ stop)
    (reached : good value cursor) :
    Runs stop (pure value) cursor good stops :=
  ⟨Nat.le_refl _, within, reached⟩

theorem throw
    {halt : Halt}
    (within : cursor.index ≤ stop)
    (reason : stops halt) :
    Runs stop (throw halt : Descent α) cursor good stops :=
  ⟨Nat.le_refl _, within, reason⟩

theorem imp
    (runs : Runs stop run cursor good stops)
    (weaker : ∀ value next, cursor.index ≤ next.index → good value next → better value next) :
    Runs stop run cursor better stops := by
  unfold Runs at runs ⊢
  rcases outcome : run.from cursor with ⟨halt | value, next⟩
  · rw [outcome] at runs
    exact runs
  · rw [outcome] at runs
    exact ⟨runs.1, runs.2.1, weaker value next runs.1 runs.2.2⟩

end Runs

end Descent

/-- The first end of the input in a list is at an index. -/
structure EndsAt (tokens : List Token) (stop : Nat) : Prop where
  finish : ∃ token, tokens[stop]? = some token ∧ token.role = .endOfInput
  before : ∀ index token, index < stop → tokens[index]? = some token → token.role ≠ .endOfInput

/-- Up to the end of the input there is a token at every index, and only the last is the end. -/
theorem EndsAt.exists_token
    {tokens : List Token} {stop index : Nat}
    (ends : EndsAt tokens stop)
    (within : index ≤ stop) :
    ∃ token, tokens[index]? = some token ∧ (token.role = .endOfInput ↔ index = stop) := by
  obtain ⟨finish, found, role⟩ := ends.finish
  rcases Nat.lt_or_eq_of_le within with before | rfl
  · have inside : index < tokens.length :=
      Nat.lt_trans before (List.getElem?_eq_some_iff.mp found).1
    have other := ends.before index tokens[index] before (List.getElem?_eq_getElem inside)
    exact ⟨tokens[index], List.getElem?_eq_getElem inside,
      iff_of_false other (Nat.ne_of_lt before)⟩
  · exact ⟨finish, found, iff_of_true role rfl⟩

/-- A token that is no end of the input is not the last one. -/
theorem EndsAt.succ_le
    {tokens : List Token} {stop index : Nat} {token : Token}
    (ends : EndsAt tokens stop)
    (within : index ≤ stop)
    (found : tokens[index]? = some token)
    (goesOn : token.role ≠ .endOfInput) :
    index + 1 ≤ stop := by
  obtain ⟨other, sameFound, last⟩ := ends.exists_token within
  cases found.symm.trans sameFound
  exact Nat.lt_of_le_of_ne within fun same => goesOn (last.mpr same)

namespace Descent

section

variable {bounds : Bounds} {tokens : List Token} {cursor : Cursor} {token : Token}

theorem from_here
    (found : tokens[cursor.index]? = some token) :
    (here tokens).from cursor = (.ok token, cursor) := by
  simp [here, from_bind, found]

theorem from_advance
    (found : tokens[cursor.index]? = some token)
    (goesOn : token.role ≠ .endOfInput) :
    (advance tokens).from cursor = (.ok token, cursor.next) := by
  rw [Ne, Token.role_eq_endOfInput_iff] at goesOn
  simp only [advance, from_bind, from_here found, if_neg goesOn, from_modify, from_pure]

theorem from_refuse
    {refusal : Refusal}
    (found : tokens[cursor.index]? = some token) :
    (refuse tokens refusal : Descent α).from cursor =
      (.error (.refused token refusal), cursor) := by
  simp [refuse, from_bind, from_here found]

theorem from_expect
    {wanted : Wanted}
    (found : tokens[cursor.index]? = some token)
    (expected : some token.role = wanted.role?) :
    (expect tokens wanted).from cursor = (.ok token, cursor.next) := by
  have goesOn := wanted.role_ne_endOfInput expected
  simp [expect, from_bind, from_here found, expected, from_advance found goesOn]

theorem from_expect_other
    {wanted : Wanted}
    (found : tokens[cursor.index]? = some token)
    (other : some token.role ≠ wanted.role?) :
    (expect tokens wanted).from cursor =
      (.error (.refused token (.wanted wanted)), cursor) := by
  simp [expect, from_bind, from_here found, other, from_refuse found]

theorem from_enter
    (bounds : Bounds)
    (found : tokens[cursor.index]? = some token) :
    (enter bounds tokens).from cursor =
      (if bounds.nesting < cursor.depth + 1 then .error (.refused token .nesting) else .ok (),
        { cursor with depth := cursor.depth + 1 }) := by
  have same : tokens[({ cursor with depth := cursor.depth + 1 } : Cursor).index]? = some token :=
    found
  by_cases deep : bounds.nesting < cursor.depth + 1 <;>
    simp [enter, from_bind, deep, from_refuse same]

theorem from_openOperator
    (bounds : Bounds)
    (found : tokens[cursor.index]? = some token) :
    (openOperator bounds tokens).from cursor =
      (if bounds.operators < cursor.operators + 1 then .error (.refused token .operators)
        else .ok (),
        { cursor with operators := cursor.operators + 1 }) := by
  have same :
      tokens[({ cursor with operators := cursor.operators + 1 } : Cursor).index]? = some token :=
    found
  by_cases many : bounds.operators < cursor.operators + 1 <;>
    simp [openOperator, from_bind, many, from_refuse same]

theorem from_closing
    (found : tokens[cursor.index]? = some token) :
    (closing tokens).from cursor =
      (.ok (), if token.role = .closeBrace then cursor.next else cursor) := by
  by_cases closes : token.role = .closeBrace
  · have goesOn : token.role ≠ .endOfInput := by simp [closes]
    simp only [closing, from_bind, from_here found, if_pos closes, from_advance found goesOn,
      from_pure]
  · simp only [closing, from_bind, from_here found, if_neg closes, from_pure]

theorem from_previous
    {span : Span}
    (known : spanBefore? tokens cursor.index = some span) :
    (previous tokens).from cursor = (.ok span, cursor) := by
  simp [previous, from_bind, known]

end

end Descent

end Bhasha.Reader
