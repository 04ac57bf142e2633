import Bhasha.Evaluation.Expression

namespace Bhasha

/-!
# Executing statements

A machine holds the environment, the steps taken and the lines printed.
Executing a statement ends with a machine and, if it did not reach its end,
with a fault; the machine then shows how far it came and can go on from there.

Every turn of a loop takes steps, so the steps that are left bound the number
of turns.
-/

/-- The limits of a run: steps in all, and lines printed. -/
structure Limits where
  steps : Nat
  lines : Nat
  deriving Repr, DecidableEq

namespace Limits

/-- The limits of a run that names none. -/
def standard : Limits := ⟨10000000, 10000⟩

end Limits

/-- What a run has bound, counted and printed so far. -/
structure Machine where
  environment : Environment
  steps : Nat
  output : Array String

/-- The end of an execution: the machine, and the fault that stopped it if one did. -/
structure Ended where
  fault : Option Fault
  machine : Machine

namespace Machine

/-- The machine before a run. -/
def initial : Machine := ⟨.empty, 0, #[]⟩

/-- The execution is complete. -/
@[inline] def done (machine : Machine) : Ended := ⟨none, machine⟩

/-- The execution stops with a fault. -/
@[inline] def stop (machine : Machine) (fault : Fault) : Ended := ⟨some fault, machine⟩

/-- Take one step, and go on within the limit. -/
@[inline] def tick (limits : Limits) (machine : Machine) (next : Machine → Ended) : Ended :=
  let machine := { machine with steps := machine.steps + 1 }
  if machine.steps ≤ limits.steps then next machine else machine.stop .stepLimitExceeded

/-- Evaluate an expression, and go on with its value. -/
@[inline] def evaluate
    (limits : Limits)
    (machine : Machine)
    (expression : Expression)
    (next : Value → Machine → Ended) : Ended :=
  match expression.evaluate limits.steps machine.environment machine.steps with
  | ⟨.ok value, steps⟩ => next value { machine with steps := steps }
  | ⟨.error fault, steps⟩ => stop { machine with steps := steps } fault

/-- A name is bound to a value. -/
def define (machine : Machine) (name : String) (value : Value) : Machine :=
  { machine with environment := machine.environment.define name value }

/-- A bound name is bound to another value. -/
def assign (machine : Machine) (name : String) (value : Value) : Ended :=
  match machine.environment.set? name value with
  | some environment => done { machine with environment := environment }
  | none => machine.stop (.undefinedVariable name)

/-- Print the text of a value as a line, unless the lines are used up. -/
def print (limits : Limits) (machine : Machine) (value : Value) : Ended :=
  if machine.output.size < limits.lines then
    done { machine with output := machine.output.push value.display }
  else machine.stop .outputLimitExceeded

/--
Turn a loop while its condition is true, at most once for every step left.

With no step left the condition cannot take its first one.
-/
def turn
    (limits : Limits)
    (condition : Expression)
    (body : Machine → Ended) : Nat → Machine → Ended
  | 0, machine => stop { machine with steps := machine.steps + 1 } .stepLimitExceeded
  | left + 1, machine =>
      machine.evaluate limits condition fun value machine =>
        if value.isTruthy then
          match body machine with
          | ⟨none, machine⟩ => turn limits condition body left machine
          | ended => ended
        else machine.done

end Machine

mutual

/-- Execute a statement. -/
def Statement.execute (limits : Limits) : Statement → Machine → Ended
  | .declare _ name value _, machine =>
      machine.tick limits fun machine =>
        machine.evaluate limits value fun value machine => (machine.define name.text value).done
  | .assign name value _, machine =>
      machine.tick limits fun machine =>
        machine.evaluate limits value fun value machine => machine.assign name.text value
  | .print value _, machine =>
      machine.tick limits fun machine =>
        machine.evaluate limits value fun value machine => machine.print limits value
  | .ifThen condition consequent _, machine =>
      machine.tick limits fun machine =>
        machine.evaluate limits condition fun value machine =>
          if value.isTruthy then consequent.execute limits machine else machine.done
  | .ifElse condition consequent alternate _, machine =>
      machine.tick limits fun machine =>
        machine.evaluate limits condition fun value machine =>
          if value.isTruthy then consequent.execute limits machine
          else alternate.execute limits machine
  | .loop condition body _, machine =>
      machine.tick limits fun machine =>
        machine.turn limits condition (body.execute limits) (limits.steps - machine.steps)

/-- Execute a block: one step for the block, then its statements. -/
def Block.execute (limits : Limits) : Block → Machine → Ended
  | .mk body _, machine => machine.tick limits fun machine => executeAll limits body machine

/-- Execute statements in order until one faults. -/
def executeAll (limits : Limits) : List Statement → Machine → Ended
  | [], machine => machine.done
  | statement :: rest, machine =>
      match statement.execute limits machine with
      | ⟨none, machine⟩ => executeAll limits rest machine
      | ended => ended

end

/-- Execute a program: one step for the program, then its statements. -/
def Program.execute (limits : Limits) (program : Program) (machine : Machine) : Ended :=
  machine.tick limits fun machine => executeAll limits program.body machine

end Bhasha
