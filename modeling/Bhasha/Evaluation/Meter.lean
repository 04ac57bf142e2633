import Bhasha.Value

namespace Bhasha

/-!
# Metered results

Every part of a program that is evaluated or executed takes one step before it
does anything else.  A metered result is what came out and the number of steps
taken so far; the step that goes beyond the limit is counted and faults.
-/

/-- What came out, and the number of steps taken so far. -/
structure Metered (α : Type) where
  outcome : Except Fault α
  steps : Nat

namespace Metered

/-- A result that takes no further step. -/
@[inline] def ok (value : α) (steps : Nat) : Metered α := ⟨.ok value, steps⟩

/-- A fault that takes no further step. -/
@[inline] def fault (fault : Fault) (steps : Nat) : Metered α := ⟨.error fault, steps⟩

/-- Go on with what came out, unless it is a fault. -/
@[inline] def andThen (first : Metered α) (next : α → Nat → Metered β) : Metered β :=
  match first with
  | ⟨.ok value, steps⟩ => next value steps
  | ⟨.error fault, steps⟩ => ⟨.error fault, steps⟩

/-- Take one step: what follows it happens only within the limit. -/
@[inline] def tick (limit steps : Nat) (next : Nat → Metered α) : Metered α :=
  if steps < limit then next (steps + 1) else fault .stepLimitExceeded (steps + 1)

end Metered

end Bhasha
