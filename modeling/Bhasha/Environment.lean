import Std.Data.TreeMap
import Bhasha.Value

namespace Bhasha

/-!
# Environments

An environment binds names to values in one flat namespace, ordered by name.
`define` binds a name whether it is bound or not, and `set?` changes only a
name that is bound.
-/

/-- The bound names with their values. -/
structure Environment where
  bindings : Std.TreeMap String Value

namespace Environment

/-- The environment that binds nothing. -/
def empty : Environment := ⟨∅⟩

/-- The value of a name, if it is bound. -/
def get? (environment : Environment) (name : String) : Option Value :=
  environment.bindings[name]?

/-- A name is bound to a value, whatever it was bound to before. -/
def define (environment : Environment) (name : String) (value : Value) : Environment :=
  ⟨environment.bindings.insert name value⟩

/-- A bound name is bound to another value; a name that is not bound has no result. -/
def set? (environment : Environment) (name : String) (value : Value) : Option Environment :=
  if environment.bindings.contains name then some (environment.define name value) else none

/-- How many names are bound. -/
def size (environment : Environment) : Nat := environment.bindings.size

/-- The bound names in order, with their values. -/
def toList (environment : Environment) : List (String × Value) := environment.bindings.toList

/-- Nothing is bound in the empty environment. -/
@[simp] theorem get?_empty (name : String) : empty.get? name = none := by
  simp [empty, get?]

/-- After a definition the defined name has the new value and every other name its old one. -/
theorem get?_define (environment : Environment) (defined name : String) (value : Value) :
    (environment.define defined value).get? name =
      if defined = name then some value else environment.get? name := by
  simp [define, get?, Std.TreeMap.getElem?_insert, Std.LawfulEqCmp.compare_eq_iff_eq]

/-- A name can be set exactly when it is bound, and setting it defines it. -/
theorem set?_eq (environment : Environment) (name : String) (value : Value) :
    environment.set? name value =
      if (environment.get? name).isSome then some (environment.define name value) else none := by
  simp [set?, get?]

end Environment

end Bhasha
