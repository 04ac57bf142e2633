import Bhasha.CommandLine.Invocation
import Bhasha.Gallery
import Bhasha.Page

namespace Bhasha

/-!
# The command line

`Invocation.input` names the program text that a call needs, and
`Invocation.respond` gives what the call writes and its exit code.  Reading files
is left to the caller.
-/

/-- Why a program text cannot be read. -/
inductive ReadFailure where
  | missing
  | denied
  | notDirectory
  | directory
  | nameTooLong
  | invalidText
  deriving Repr, DecidableEq

/-- The text of a read failure. -/
def ReadFailure.message : ReadFailure → String
  | missing => "No such file or directory (os error 2)"
  | denied => "Permission denied (os error 13)"
  | notDirectory => "Not a directory (os error 20)"
  | directory => "Is a directory (os error 21)"
  | nameTooLong => "File name too long (os error 36)"
  | invalidText => "stream did not contain valid UTF-8"

/-- What a call writes, and its exit code. -/
structure Response where
  code : Nat
  out : String
  err : String
  deriving Repr, DecidableEq

namespace Response

/-- A call that succeeds. -/
def success (out : String) : Response := ⟨0, out, ""⟩

/-- A call that fails with a message. -/
def failure (message : String) : Response := ⟨1, "", message⟩

/-- The text of some lines, each with its end. -/
def lines (texts : List String) : String :=
  texts.foldl (fun out line => out ++ line ++ "\n") ""

/-- A call that writes a result, or the report of a syntax error. -/
def ofResult (write : α → String) : Except SyntaxError α → Response
  | .ok value => success (write value)
  | .error error => failure (error.report ++ "\n")

end Response

namespace Command

/-- The input that a command reads, if it reads one. -/
def input : Command → Option Input
  | run input _ _ | tokens input | outline input _ | render input => some input
  | examples _ => none

/-- The program that a command runs, and what it writes. -/
def runSource (source : Source) (limits : Limits) (json : Bool) : Response :=
  let report := source.run limits
  let code := if report.success then 0 else 1
  if json then ⟨code, report.toJson.compact ++ "\n", ""⟩
  else
    let err :=
      match report.error? with
      | some error => error.report ++ "\n"
      | none => ""
    ⟨code, Response.lines report.output, err⟩

/-- The examples with their titles, or the text of one of them. -/
def listExamples : Option String → Response
  | none =>
      .success <| Response.lines <| Gallery.examples.map fun entry =>
        entry.slug ++ Text.spaces (12 - entry.slug.length) ++ " " ++ entry.title
  | some slug =>
      match Gallery.find? slug with
      | some entry => .success (entry.source ++ "\n")
      | none =>
          let available := String.intercalate ", " Gallery.slugs
          .failure s!"Error: unknown example '{slug}' (available: {available})\n"

/-- What a command writes for the text of its input; a command without input ignores the text. -/
def executeOn (text : String) : Command → Response
  | run input limits json => runSource ⟨input.sourceName, text⟩ limits json
  | tokens _ => .success (Response.lines ((Token.scan text).map Token.display))
  | outline input json =>
      let write (outline : Outline) : String :=
        if json then outline.toJson.pretty ++ "\n" else outline.text
      .ofResult write (Source.outline ⟨input.sourceName, text⟩)
  | render input => .ofResult id (Source.render ⟨input.sourceName, text⟩)
  | examples slug => listExamples slug

/-- What a command writes when its input cannot be read. -/
def unread (input : Input) (failure : ReadFailure) : Response :=
  .failure s!"Error: reading {input.title}\n\nCaused by:\n    {failure.message}\n"

/-- What a command writes and its exit code, where `read` gives the texts of inputs. -/
def execute (command : Command) (read : Input → Except ReadFailure String) : Response :=
  match command.input with
  | none => command.executeOn ""
  | some input =>
      match read input with
      | .ok text => command.executeOn text
      | .error failure => unread input failure

end Command

namespace Invocation

/-- The input that a call reads, if it reads one. -/
def input : Invocation → Option Input
  | command asked => asked.input
  | _ => none

/-- The exit code of misuse. -/
def misuseCode : Nat := 2

/-- What the program is and which commands it has. -/
def usage : String :=
  Response.lines
    ["Bojro (বজ্র): a small Bengali-keyword teaching language.",
     "",
     "Usage: bojro [OPTIONS] <COMMAND>",
     "",
     "Commands: run, tokens, ast, render, examples, help"]

/-- What a call writes and its exit code, where `read` gives the texts of inputs. -/
def respond (read : Input → Except ReadFailure String) : Invocation → Response
  | command asked => asked.execute read
  | version => .success s!"bojro {Page.version}\n"
  | help => .success usage
  | misuse => ⟨misuseCode, "", usage⟩

end Invocation

end Bhasha
