import Bhasha.Json
import Bhasha.Number.Reading
import Bhasha.Operator

namespace Bhasha

/-!
# Values and faults

A value is a number, a text or a truth value.  `Value.looselyEqual` compares
values of different types as numbers, `Value.order?` orders two numbers or two
texts, and `BinaryOperator.apply` gives the value of an operator on two
operands or the fault that the operands cause.
-/

/-- A value that an expression has. -/
inductive Value where
  | number (value : Float)
  | string (value : String)
  | boolean (value : Bool)
  deriving DecidableEq

/-- The type of a value. -/
inductive ValueType where
  | number
  | string
  | boolean
  deriving Repr, DecidableEq

namespace ValueType

/-- The name of a type. -/
def name : ValueType → String
  | number => "number"
  | string => "string"
  | boolean => "boolean"

end ValueType

/-- Why a run stops before its end. -/
inductive Fault where
  | undefinedVariable (name : String)
  | notApplicable (operator : BinaryOperator) (left right : ValueType)
  | notComparable (left right : ValueType)
  | stepLimitExceeded
  | outputLimitExceeded
  deriving Repr, DecidableEq

namespace Fault

/-- The text of a fault. -/
def message : Fault → String
  | undefinedVariable name => s!"{name} is not defined"
  | notApplicable operator left right =>
      s!"cannot apply '{operator.symbol}' to {left.name} and {right.name}"
  | notComparable left right => s!"cannot compare {left.name} and {right.name}"
  | stepLimitExceeded => "step limit exceeded"
  | outputLimitExceeded => "output limit exceeded"

/-- The line that a fault adds to the output of a run. -/
def line (fault : Fault) : String := "Error: " ++ fault.message

end Fault

namespace Value

/-- The type of a value. -/
def type : Value → ValueType
  | number _ => .number
  | string _ => .string
  | boolean _ => .boolean

/-- A value counts as true in a condition: all but zero, no number, the empty text, and false. -/
def isTruthy : Value → Bool
  | number value => value != 0.0 && !value.isNaN
  | string value => !value.isEmpty
  | boolean value => value

/-- One for true and zero for false. -/
def ofTruth (value : Bool) : Float := if value then 1.0 else 0.0

/-- The number that arithmetic takes a value for; a text is none. -/
def asNumber? : Value → Option Float
  | number value => some value
  | boolean value => some (ofTruth value)
  | string _ => none

/-- The number that a comparison of different types takes a value for. -/
def toNumber : Value → Float
  | number value => value
  | boolean value => ofTruth value
  | string value => Reading.readNumeric value

/-- Two values are equal as values of one type, or as numbers when their types differ. -/
def looselyEqual : Value → Value → Bool
  | number a, number b => a == b
  | string a, string b => a == b
  | boolean a, boolean b => a == b
  | a, b => a.toNumber == b.toNumber

/-- The text of a value. -/
def display : Value → String
  | number value => NumberStyle.screen.write value
  | string value => value
  | boolean value => if value then "true" else "false"

/-- A value as a JSON value. -/
def toJson : Value → Json
  | number value => .number value
  | string value => .string value
  | boolean value => .bool value

/-- The sum of two numbers, or the joined texts of two values of which one is a text. -/
def add (left right : Value) : Value :=
  match left.asNumber?, right.asNumber? with
  | some a, some b => number (a + b)
  | _, _ => string (left.display ++ right.display)

/-- The number of an operation on two values, which must be numbers or truth values. -/
def arithmetic
    (operator : BinaryOperator)
    (operation : Float → Float → Float)
    (left right : Value) : Except Fault Value :=
  match left.asNumber?, right.asNumber? with
  | some a, some b => .ok (number (operation a b))
  | _, _ => .error (.notApplicable operator left.type right.type)

/-- The truth of a comparison of two numbers or of two texts, which are ordered by code points. -/
def compare
    (numbers : Float → Float → Bool)
    (texts : String → String → Bool)
    (left right : Value) : Except Fault Value :=
  match left, right with
  | number a, number b => .ok (boolean (numbers a b))
  | string a, string b => .ok (boolean (texts a b))
  | _, _ => .error (.notComparable left.type right.type)

end Value

namespace BinaryOperator

/-- The value of an operator on two operands, or the fault that they cause. -/
def apply (operator : BinaryOperator) (left right : Value) : Except Fault Value :=
  match operator with
  | equal => .ok (.boolean (left.looselyEqual right))
  | notEqual => .ok (.boolean (!left.looselyEqual right))
  | less => Value.compare (fun a b => a < b) (fun a b => a < b) left right
  | greater => Value.compare (fun a b => b < a) (fun a b => b < a) left right
  | lessOrEqual => Value.compare (fun a b => a ≤ b) (fun a b => a ≤ b) left right
  | greaterOrEqual => Value.compare (fun a b => b ≤ a) (fun a b => b ≤ a) left right
  | add => .ok (left.add right)
  | subtract => left.arithmetic operator (· - ·) right
  | multiply => left.arithmetic operator (· * ·) right
  | divide => left.arithmetic operator (· / ·) right
  | modulo => left.arithmetic operator Binary64.remainder right

end BinaryOperator

end Bhasha
