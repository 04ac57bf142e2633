namespace Bhasha

/-!
# Binary operators

The operators of expressions, from the loosest group to the tightest: equality,
comparison, term, factor.  All of them associate to the left.
-/

/-- A binary operator of expressions. -/
inductive BinaryOperator where
  | equal
  | notEqual
  | greater
  | less
  | greaterOrEqual
  | lessOrEqual
  | add
  | subtract
  | multiply
  | divide
  | modulo
  deriving Repr, DecidableEq

namespace BinaryOperator

/-- The written form of an operator. -/
def symbol : BinaryOperator → String
  | equal => "=="
  | notEqual => "!="
  | greater => ">"
  | less => "<"
  | greaterOrEqual => ">="
  | lessOrEqual => "<="
  | add => "+"
  | subtract => "-"
  | multiply => "*"
  | divide => "/"
  | modulo => "%"

/-- The name of an operator in listings. -/
def name : BinaryOperator → String
  | equal => "Eq"
  | notEqual => "NotEq"
  | greater => "Greater"
  | less => "Less"
  | greaterOrEqual => "GreaterEq"
  | lessOrEqual => "LessEq"
  | add => "Add"
  | subtract => "Sub"
  | multiply => "Mul"
  | divide => "Div"
  | modulo => "Mod"

/-- How tightly an operator binds: equality 1, comparison 2, term 3, factor 4. -/
def precedence : BinaryOperator → Nat
  | equal | notEqual => 1
  | greater | less | greaterOrEqual | lessOrEqual => 2
  | add | subtract => 3
  | multiply | divide | modulo => 4

/-- Every operator once, from the loosest group to the tightest. -/
def all : List BinaryOperator :=
  [equal, notEqual, greater, less, greaterOrEqual, lessOrEqual,
   add, subtract, multiply, divide, modulo]

/-- The operator with a given written form, if there is one. -/
def ofSymbol? (text : String) : Option BinaryOperator :=
  all.find? fun operator => operator.symbol == text

/-- The written form of an operator is read back as that operator. -/
theorem ofSymbol?_symbol (operator : BinaryOperator) :
    ofSymbol? operator.symbol = some operator := by
  cases operator <;> decide +kernel

end BinaryOperator

end Bhasha
