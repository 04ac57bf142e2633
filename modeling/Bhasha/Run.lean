import Bhasha.Digest
import Bhasha.Evaluation.Statement
import Bhasha.Syntax.Outline
import Bhasha.Syntax.Parse
import Bhasha.Syntax.Render
import Bhasha.Token.Scan

namespace Bhasha

/-!
# Runs and their reports

A source is scanned, parsed and run under limits.  The report of a run holds the
outcome, or the syntax error that kept the source from running, together with
the digest of the source.
-/

/-- How far a run has come. -/
inductive Phase where
  | idle
  | completed
  | faulted
  deriving Repr, DecidableEq

namespace Phase

/-- The name of a phase. -/
def name : Phase → String
  | idle => "idle"
  | completed => "completed"
  | faulted => "faulted"

/-- A run in this phase is over. -/
def isTerminal : Phase → Bool
  | idle => false
  | completed | faulted => true

end Phase

/-- The outcome of a run: the lines printed, the fault if one stopped it, and the steps taken. -/
structure Outcome where
  printed : List String
  fault : Option Fault
  steps : Nat
  rendered : String

namespace Outcome

/-- The phase in which a run ended. -/
def phase (outcome : Outcome) : Phase :=
  match outcome.fault with
  | none => .completed
  | some _ => .faulted

/-- A run reached the end of its program. -/
def isOk (outcome : Outcome) : Bool := outcome.fault.isNone

/-- The lines of a run: those printed, then the line of the fault. -/
def output (outcome : Outcome) : List String :=
  outcome.printed ++ (outcome.fault.map Fault.line).toList

end Outcome

/-- Run a program under limits. -/
def Program.run (limits : Limits) (program : Program) : Outcome :=
  let ended := program.execute limits .initial
  { printed := ended.machine.output.toList
    fault := ended.fault
    steps := ended.machine.steps
    rendered := Render.program program }

/-- The report of a run: its outcome, or the syntax error of its source. -/
inductive Report where
  | ran (outcome : Outcome) (sourceHash : String)
  | refused (error : SyntaxError) (sourceHash : String)

namespace Report

/-- The source ran to the end of its program. -/
def success : Report → Bool
  | ran outcome _ => outcome.isOk
  | refused .. => false

/-- The lines of a run; a source that did not run has none. -/
def output : Report → List String
  | ran outcome _ => outcome.output
  | refused .. => []

/-- The text of the program, if the source was parsed. -/
def rendered? : Report → Option String
  | ran outcome _ => some outcome.rendered
  | refused .. => none

/-- The syntax error, if the source was not parsed. -/
def error? : Report → Option SyntaxError
  | ran .. => none
  | refused error _ => some error

/-- The phase in which the run ended, if there was one. -/
def phase? : Report → Option Phase
  | ran outcome _ => some outcome.phase
  | refused .. => none

/-- The steps of a run; a source that did not run took none. -/
def steps : Report → Nat
  | ran outcome _ => outcome.steps
  | refused .. => 0

/-- The digest of the source. -/
def sourceHash : Report → String
  | ran _ sourceHash => sourceHash
  | refused _ sourceHash => sourceHash

/-- A report as an object; what a report does not have is left out. -/
def toJson (report : Report) : Json :=
  .object <|
    [("success", .bool report.success), ("output", .texts report.output)] ++
    Json.optional "rendered" (report.rendered?.map .string) ++
    Json.optional "error" (report.error?.map SyntaxError.toJson) ++
    Json.optional "phase" (report.phase?.map fun phase => .string phase.name) ++
    [("steps", .natural report.steps), ("source_hash", .string report.sourceHash)]

end Report

namespace Source

/-- The program of a source, or its syntax error. -/
def parse (source : Source) : Except SyntaxError Program :=
  Reader.parseTokens source (Token.scan source.text)

/-- The rendered program of a source. -/
def render (source : Source) : Except SyntaxError String :=
  source.parse.map Render.program

/-- The outline of the program of a source. -/
def outline (source : Source) : Except SyntaxError Outline :=
  source.parse.map Outline.ofProgram

/-- Run a source under limits. -/
def run (source : Source) (limits : Limits) : Report :=
  let hash := digest source.text
  match source.parse with
  | .ok program => .ran (program.run limits) hash
  | .error error => .refused error hash

end Source

end Bhasha
