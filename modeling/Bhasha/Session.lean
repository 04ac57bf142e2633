import Bhasha.Run

namespace Bhasha

/-!
# Sessions

A session runs one text after another under the same limits and remembers the
last text that was parsed.  A text that is remembered is not parsed again, and a
text that cannot be parsed leaves the memory as it was.
-/

/-- A program together with the digest of the text it was parsed from. -/
structure Remembered where
  hash : String
  program : Program

/-- The limits of a session and the last text that was parsed. -/
structure Session where
  limits : Limits
  remembered : Option Remembered

namespace Session

/-- A session that remembers nothing. -/
def start (limits : Limits) : Session := ⟨limits, none⟩

/-- The program that is remembered for a digest. -/
def known? (session : Session) (hash : String) : Option Program :=
  match session.remembered with
  | some entry => if entry.hash = hash then some entry.program else none
  | none => none

/-- The program of a text, or its syntax error, and the session after it. -/
def parse (session : Session) (text : String) : Except SyntaxError Program × Session :=
  let hash := digest text
  match session.known? hash with
  | some program => (.ok program, session)
  | none =>
      match (Source.ofText text).parse with
      | .ok program => (.ok program, { session with remembered := some ⟨hash, program⟩ })
      | .error error => (.error error, session)

/-- The report of running a text, and the session after it. -/
def run (session : Session) (text : String) : Report × Session :=
  let hash := digest text
  match session.parse text with
  | (.ok program, next) => (.ran (program.run session.limits) hash, next)
  | (.error error, next) => (.refused error hash, next)

/-- The program that is remembered. -/
def program? (session : Session) : Option Program := session.remembered.map Remembered.program

/-- The outline of the program that is remembered. -/
def outline? (session : Session) : Option Outline := session.program?.map Outline.ofProgram

/-- The digest of the text that is remembered. -/
def hash? (session : Session) : Option String := session.remembered.map Remembered.hash

end Session

end Bhasha
