import Bhasha.CommandLine

namespace Bhasha.Main

/-!
# The program

`main` reads the arguments, the environment and the input that they name, and
writes what the command line answers.
-/

/-- Bytes as a text, if they are valid UTF-8. -/
def decodeText (bytes : ByteArray) : Except ReadFailure String :=
  match String.fromUTF8? bytes with
  | some text => .ok text
  | none => .error .invalidText

/-- Read a stream up to its end. -/
partial def readAll (stream : IO.FS.Stream) (found : ByteArray) : IO ByteArray := do
  let bytes ← stream.read 65536
  if bytes.isEmpty then return found else readAll stream (found ++ bytes)

/-- Why a file cannot be read. -/
def failureOf : IO.Error → ReadFailure
  | .permissionDenied .. => .denied
  | .inappropriateType _ code _ => if code = 20 then .notDirectory else .directory
  | .resourceExhausted .. | .invalidArgument .. => .nameTooLong
  | _ => .missing

/-- The text of an input, or why it cannot be read. -/
def readInput : Input → IO (Except ReadFailure String)
  | .standard => do return decodeText (← readAll (← IO.getStdin) .empty)
  | .file name => do
      try
        return decodeText (← IO.FS.readBinFile name)
      catch failure =>
        return .error (failureOf failure)

/-- Answer one call. -/
def answer (arguments : List String) : IO Response := do
  let stepLimit ← IO.getEnv "BOJRO_STEP_LIMIT"
  let invocation := Invocation.ofArguments stepLimit arguments
  match invocation.input with
  | some input =>
      let text ← readInput input
      return invocation.respond fun _ => text
  | none => return invocation.respond fun _ => .ok ""

end Bhasha.Main

/-- Write the answer to the arguments and return its exit code. -/
def main (arguments : List String) : IO UInt32 := do
  let response ← Bhasha.Main.answer arguments
  IO.print response.out
  IO.eprint response.err
  return UInt32.ofNat response.code
