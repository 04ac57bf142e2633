import Bhasha.Syntax.Tree
import Bhasha.Token

namespace Bhasha.Grammar

/-!
# The grammar of programs

Expressions are layered: a chain of a layer joins operands of the next tighter
layer by the operators of its own, and it is folded to the left.  `Derives` says
which tokens make an expression of a layer.

Statements are read off the front of a list of tokens, so that a rule can look
at the token after them: a block ends with a brace, or with nothing when the next
token is the end of the input.  Spans are left open, as the grammar does not
determine them, and so is how much may be open at once.
-/

/-- The layers of expressions, from the loosest to the tightest. -/
inductive Layer where
  | equality
  | comparison
  | term
  | factor
  | primary
  deriving Repr, DecidableEq

namespace Layer

/-- The operators that join the operands of a layer. -/
def operators : Layer → List BinaryOperator
  | equality => [.equal, .notEqual]
  | comparison => [.greater, .less, .greaterOrEqual, .lessOrEqual]
  | term => [.add, .subtract]
  | factor => [.multiply, .divide, .modulo]
  | primary => []

/-- The layer of the operands of a layer. -/
def tighter? : Layer → Option Layer
  | equality => some comparison
  | comparison => some term
  | term => some factor
  | factor => some primary
  | primary => none

/-- How tightly the operators of a layer bind; primary expressions bind tighter than all. -/
def precedence : Layer → Nat
  | equality => 1
  | comparison => 2
  | term => 3
  | factor => 4
  | primary => 5

/-- The layer whose operands an operator joins. -/
def of : BinaryOperator → Layer
  | .equal | .notEqual => equality
  | .greater | .less | .greaterOrEqual | .lessOrEqual => comparison
  | .add | .subtract => term
  | .multiply | .divide | .modulo => factor

/-- The operators of a layer are those of its precedence. -/
theorem mem_operators_iff
    (layer : Layer)
    (operator : BinaryOperator) :
    operator ∈ layer.operators ↔ operator.precedence = layer.precedence := by
  cases layer <;> cases operator <;> decide

/-- An operator binds as tightly as its layer. -/
theorem precedence_of (operator : BinaryOperator) :
    (of operator).precedence = operator.precedence := by
  cases operator <;> rfl

theorem mem_operators_of (operator : BinaryOperator) :
    operator ∈ (of operator).operators :=
  (mem_operators_iff _ operator).mpr (precedence_of operator).symm

/-- The operands of a layer bind tighter by one. -/
theorem precedence_tighter
    {layer tighter : Layer}
    (next : layer.tighter? = some tighter) :
    tighter.precedence = layer.precedence + 1 := by
  cases layer <;> cases next <;> rfl

/-- A layer with operators has operands of a tighter layer. -/
theorem tighter_of_mem
    {layer : Layer} {operator : BinaryOperator}
    (member : operator ∈ layer.operators) :
    ∃ tighter, layer.tighter? = some tighter := by
  cases layer with
  | primary =>
      cases member
  | equality | comparison | term | factor =>
      exact ⟨_, rfl⟩

theorem equality_le (layer : Layer) :
    equality.precedence ≤ layer.precedence := by
  cases layer <;> decide

theorem le_primary (layer : Layer) :
    layer.precedence ≤ primary.precedence := by
  cases layer <;> decide

theorem of_lt_primary (operator : BinaryOperator) :
    (of operator).precedence < primary.precedence := by
  cases operator <;> decide

end Layer

/-- The tokens make an expression of a layer. -/
inductive Derives : Layer → List Token → Expression → Prop
  | number
      {token : Token} {value : Float} {span : Span}
      (role : token.role = .number value) :
      Derives .primary [token] (.literal (.number value) token.lexeme span)
  | string
      {token : Token} {span : Span}
      (role : token.role = .string) :
      Derives .primary [token] (.literal (.string token.lexeme) s!"\"{token.lexeme}\"" span)
  | name
      {token : Token} {span : Span}
      (role : token.role = .identifier) :
      Derives .primary [token] (.name token.lexeme span)
  | paren
      {opening closing : Token} {tokens : List Token} {value : Expression}
      (opens : opening.role = .openParen)
      (derived : Derives .equality tokens value)
      (closes : closing.role = .closeParen) :
      Derives .primary (opening :: (tokens ++ [closing])) value
  | single
      {layer tighter : Layer} {tokens : List Token} {value : Expression}
      (next : layer.tighter? = some tighter)
      (derived : Derives tighter tokens value) :
      Derives layer tokens value
  | chain
      {layer tighter : Layer} {lefts rights : List Token} {token : Token}
      {operator : BinaryOperator} {left right : Expression} {span : Span}
      (next : layer.tighter? = some tighter)
      (leftDerived : Derives layer lefts left)
      (role : token.role = .binary operator)
      (member : operator ∈ layer.operators)
      (rightDerived : Derives tighter rights right) :
      Derives layer (lefts ++ token :: rights) (.binary operator left right span)

/-- An expression of a layer is one of every looser layer. -/
theorem Derives.loosen
    {layer target : Layer} {tokens : List Token} {value : Expression}
    (derived : Derives layer tokens value)
    (order : target.precedence ≤ layer.precedence) :
    Derives target tokens value := by
  obtain ⟨distance, exact⟩ := Nat.exists_eq_add_of_le order
  induction distance generalizing target with
  | zero =>
      have same : target = layer := by
        cases target <;> cases layer <;> first | rfl | cases exact
      rwa [same]
  | succ distance inductionHypothesis =>
      cases next : target.tighter? with
      | none =>
          have tightest : layer.precedence ≤ target.precedence := by
            cases target <;> cases next
            cases layer <;> decide
          omega
      | some tighter =>
          have step := Layer.precedence_tighter next
          exact .single next (inductionHypothesis (by omega) (by omega))

/-- The type that a reserved word declares, if it declares one. -/
def declaredType? : Keyword → Option DeclaredType
  | .integer => some .integer
  | .float => some .float
  | .string => some .string
  | _ => none

mutual

/-- A list of tokens starts with a statement, and a list remains after it. -/
inductive ReadsStatement : List Token → List Token → Statement → Prop
  | declare
      {word name assign semicolon : Token} {keyword : Keyword} {type : DeclaredType}
      {tokens rest : List Token} {value : Expression} {nameSpan span : Span}
      (typed : word.role = .keyword keyword)
      (declared : declaredType? keyword = some type)
      (named : name.role = .identifier)
      (assigned : assign.role = .assign)
      (derived : Derives .equality tokens value)
      (ended : semicolon.role = .semicolon) :
      ReadsStatement (word :: name :: assign :: (tokens ++ semicolon :: rest)) rest
        (.declare type ⟨name.lexeme, nameSpan⟩ value span)
  | assign
      {name assign semicolon : Token} {tokens rest : List Token}
      {value : Expression} {nameSpan span : Span}
      (named : name.role = .identifier)
      (assigned : assign.role = .assign)
      (derived : Derives .equality tokens value)
      (ended : semicolon.role = .semicolon) :
      ReadsStatement (name :: assign :: (tokens ++ semicolon :: rest)) rest
        (.assign ⟨name.lexeme, nameSpan⟩ value span)
  | print
      {word opening closing semicolon : Token} {tokens rest : List Token}
      {value : Expression} {span : Span}
      (printed : word.role = .keyword .print)
      (opens : opening.role = .openParen)
      (derived : Derives .equality tokens value)
      (closes : closing.role = .closeParen)
      (ended : semicolon.role = .semicolon) :
      ReadsStatement (word :: opening :: (tokens ++ closing :: semicolon :: rest)) rest
        (.print value span)
  | ifThen
      {word opening closing : Token} {tokens first rest : List Token}
      {condition : Expression} {consequent : Block} {span : Span}
      (conditional : word.role = .keyword .conditional)
      (opens : opening.role = .openParen)
      (derived : Derives .equality tokens condition)
      (closes : closing.role = .closeParen)
      (consequentRead : ReadsBlock first rest consequent) :
      ReadsStatement (word :: opening :: (tokens ++ closing :: first)) rest
        (.ifThen condition consequent span)
  | ifElse
      {word opening closing otherwise : Token} {tokens first second rest : List Token}
      {condition : Expression} {consequent alternate : Block} {span : Span}
      (conditional : word.role = .keyword .conditional)
      (opens : opening.role = .openParen)
      (derived : Derives .equality tokens condition)
      (closes : closing.role = .closeParen)
      (consequentRead : ReadsBlock first (otherwise :: second) consequent)
      (alternative : otherwise.role = .keyword .alternative)
      (alternateRead : ReadsBlock second rest alternate) :
      ReadsStatement (word :: opening :: (tokens ++ closing :: first)) rest
        (.ifElse condition consequent alternate span)
  | loop
      {word opening closing : Token} {tokens first rest : List Token}
      {condition : Expression} {body : Block} {span : Span}
      (looping : word.role = .keyword .loop)
      (opens : opening.role = .openParen)
      (derived : Derives .equality tokens condition)
      (closes : closing.role = .closeParen)
      (bodyRead : ReadsBlock first rest body) :
      ReadsStatement (word :: opening :: (tokens ++ closing :: first)) rest
        (.loop condition body span)

/-- A list of tokens starts with a block, and a list remains after it. -/
inductive ReadsBlock : List Token → List Token → Block → Prop
  | closed
      {opening closing : Token} {tokens rest : List Token}
      {body : List Statement} {span : Span}
      (opens : opening.role = .openBrace)
      (bodyRead : ReadsBody tokens (closing :: rest) body)
      (closes : closing.role = .closeBrace) :
      ReadsBlock (opening :: tokens) rest (.mk body span)
  | unclosed
      {opening finish : Token} {tokens rest : List Token}
      {body : List Statement} {span : Span}
      (opens : opening.role = .openBrace)
      (bodyRead : ReadsBody tokens (finish :: rest) body)
      (ends : finish.role = .endOfInput) :
      ReadsBlock (opening :: tokens) (finish :: rest) (.mk body span)

/-- A list of tokens starts with statements, and a list remains after them. -/
inductive ReadsBody : List Token → List Token → List Statement → Prop
  | nil {rest : List Token} :
      ReadsBody rest rest []
  | cons
      {tokens middle rest : List Token} {statement : Statement} {body : List Statement}
      (statementRead : ReadsStatement tokens middle statement)
      (bodyRead : ReadsBody middle rest body) :
      ReadsBody tokens rest (statement :: body)

end

/-- The tokens make a program: they are its statements and the end of the input. -/
def Sentence (tokens : List Token) (program : Program) : Prop :=
  ∃ finish : Token,
    finish.role = .endOfInput ∧ ReadsBody tokens [finish] program.body

end Bhasha.Grammar
