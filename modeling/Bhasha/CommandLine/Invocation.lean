import Bhasha.Number.Reading
import Bhasha.Run

namespace Bhasha

/-!
# Calls

A call of the program is a command with its input and limits, a request for the
version or for help, or misuse.  `Invocation.ofArguments` reads it from the
arguments of the call.

An argument that starts with a dash is an option, a lone dash is an operand, and
everything after `--` is an operand.  No option but the verbosity may be given
twice.
-/

/-- Where a program text comes from. -/
inductive Input where
  | standard
  | file (name : String)
  deriving Repr, DecidableEq

namespace Input

/-- A missing operand and a lone dash name the standard input. -/
def ofOperand : Option String → Input
  | none => standard
  | some name => if name = "-" then standard else file name

/-- The name under which a program text from here is reported. -/
def sourceName : Input → String
  | standard => Source.defaultName
  | file name => name

/-- How an input is named in a message. -/
def title : Input → String
  | standard => "standard input"
  | file name => name

end Input

/-- What a call asks for. -/
inductive Command where
  | run (input : Input) (limits : Limits) (json : Bool)
  | tokens (input : Input)
  | outline (input : Input) (json : Bool)
  | render (input : Input)
  | examples (slug : Option String)
  deriving Repr, DecidableEq

/-- A call: a command, a request for the version or for help, or none of these. -/
inductive Invocation where
  | command (command : Command)
  | version
  | help
  | misuse
  deriving Repr, DecidableEq

namespace Invocation

/-- What a command takes: flags, settings that are limits, and whether an empty operand. -/
structure Shape where
  flags : List String
  settings : List String
  emptyOperand : Bool
  deriving Repr, DecidableEq

/-- The options and the operand that are given to a command. -/
structure Given where
  flags : List String
  settings : List (String × Nat)
  operand : Option String
  deriving Repr, DecidableEq

/-- The natural number below `2 ^ 64` that a text writes, with or without a plus sign. -/
def readLimit? (text : String) : Option Nat :=
  let digits :=
    match text.toList with
    | '+' :: digits => digits
    | digits => digits
  if digits ≠ [] ∧ digits.all Reading.isDigit then
    let value := Reading.digits digits
    if value < 2 ^ 64 then some value else none
  else none

namespace Given

/-- Nothing is given. -/
def nothing : Given := ⟨[], [], none⟩

/-- A flag is given, which may be given once. -/
def addFlag? (given : Given) (flag : String) : Option Given :=
  if given.flags.contains flag then none
  else some { given with flags := flag :: given.flags }

/-- The value of a setting that is given. -/
def setting? (given : Given) (name : String) : Option Nat := given.settings.lookup name

/-- A setting is given, which may be given once and needs a limit. -/
def addSetting? (given : Given) (name text : String) : Option Given :=
  if (given.setting? name).isSome then none
  else (readLimit? text).map fun value =>
    { given with settings := (name, value) :: given.settings }

/-- An operand is given, of which there is at most one. -/
def addOperand? (shape : Shape) (given : Given) (operand : String) : Option Given :=
  if given.operand.isSome ∨ (operand = "" ∧ ¬shape.emptyOperand) then none
  else some { given with operand := some operand }

end Given

/-- What an argument is by its form. -/
inductive Form where
  | separator
  | long (name : String) (value : Option String)
  | short (letters : List Char)
  | operand
  deriving Repr, DecidableEq

/-- The form of an argument: a long option may carry a value after `=`. -/
def formOf (argument : String) : Form :=
  match argument.toList with
  | ['-', '-'] => .separator
  | '-' :: '-' :: body =>
      let name := String.ofList (body.takeWhile (· ≠ '='))
      match body.dropWhile (· ≠ '=') with
      | [] => .long name none
      | _ :: value => .long name (some (String.ofList value))
  | ['-'] => .operand
  | '-' :: letters => .short letters
  | _ => .operand

/-- What reading the arguments of a command comes to. -/
inductive Progress where
  | given (given : Given)
  | help
  | misuse
  deriving Repr, DecidableEq

/-- Go on with what is given, which is misuse if there is nothing. -/
def Progress.orMisuse (given : Option Given) (next : Given → Progress) : Progress :=
  match given with
  | some given => next given
  | none => misuse

/-- What a run of letters after one dash asks for, if every letter before is a verbosity. -/
def shortRequest? : List Char → Option Progress
  | [] => none
  | 'v' :: letters => shortRequest? letters
  | 'h' :: _ => some .help
  | _ :: _ => some .misuse

/-- Read operands only. -/
def readOperands (shape : Shape) (given : Given) : List String → Progress
  | [] => .given given
  | operand :: rest =>
      Progress.orMisuse (given.addOperand? shape operand) (readOperands shape · rest)

/-- Read the arguments of a command. -/
def readArguments (shape : Shape) (given : Given) : List String → Progress
  | [] => .given given
  | argument :: rest =>
      match formOf argument with
      | .separator => readOperands shape given rest
      | .operand =>
          Progress.orMisuse (given.addOperand? shape argument) (readArguments shape · rest)
      | .short letters =>
          match shortRequest? letters with
          | some progress => progress
          | none => readArguments shape given rest
      | .long "verbose" none => readArguments shape given rest
      | .long "help" none => .help
      | .long name none =>
          if shape.flags.contains name then
            Progress.orMisuse (given.addFlag? name) (readArguments shape · rest)
          else if shape.settings.contains name then
            match rest with
            | [] => .misuse
            | value :: rest =>
                match formOf value with
                | .operand =>
                    Progress.orMisuse (given.addSetting? name value) (readArguments shape · rest)
                | _ => .misuse
          else .misuse
      | .long name (some value) =>
          if shape.settings.contains name then
            Progress.orMisuse (given.addSetting? name value) (readArguments shape · rest)
          else .misuse

/-- What the commands take. -/
def shapeOf? : String → Option Shape
  | "run" => some ⟨["json"], ["step-limit", "max-output-lines"], false⟩
  | "tokens" => some ⟨[], [], false⟩
  | "ast" => some ⟨["json"], [], false⟩
  | "render" => some ⟨[], [], false⟩
  | "examples" => some ⟨[], [], true⟩
  | _ => none

/-- The step limit that the environment gives, or the standard one when it gives none. -/
def stepsOr? : Option String → Option Nat
  | none => some Limits.standard.steps
  | some text => readLimit? text

/--
The command of a name with what is given to it.

A step limit from the environment holds for `run` when the call names none.
-/
def commandOf? (name : String) (given : Given) (stepLimit : Option String) : Option Command :=
  let input := Input.ofOperand given.operand
  let json := given.flags.contains "json"
  match name with
  | "run" =>
      let lines := (given.setting? "max-output-lines").getD Limits.standard.lines
      let steps? := (given.setting? "step-limit").or (stepsOr? stepLimit)
      steps?.map fun steps => .run input ⟨steps, lines⟩ json
  | "tokens" => some (.tokens input)
  | "ast" => some (.outline input json)
  | "render" => some (.render input)
  | "examples" => some (.examples given.operand)
  | _ => none

/-- What a call for help asks for: help on all, or on one command, or it is misuse. -/
def helpOn : List String → Invocation
  | [] => help
  | [name] => if name = "help" ∨ (shapeOf? name).isSome then help else misuse
  | _ => misuse

/-- What a run of letters after one dash asks for before any command. -/
def shortInvocation? : List Char → Option Invocation
  | [] => none
  | 'v' :: letters => shortInvocation? letters
  | 'h' :: _ => some help
  | 'V' :: _ => some version
  | _ :: _ => some misuse

/-- The call with some arguments and a step limit from the environment. -/
def ofArguments (stepLimit : Option String) : List String → Invocation
  | [] => misuse
  | argument :: rest =>
      match formOf argument with
      | .separator => misuse
      | .short letters =>
          match shortInvocation? letters with
          | some invocation => invocation
          | none => ofArguments stepLimit rest
      | .long "verbose" none => ofArguments stepLimit rest
      | .long "version" none => version
      | .long "help" none => help
      | .long _ _ => misuse
      | .operand =>
          if argument = "help" then helpOn rest
          else
            match shapeOf? argument with
            | none => misuse
            | some shape =>
                match readArguments shape .nothing rest with
                | .misuse => misuse
                | .help => help
                | .given given =>
                    match commandOf? argument given stepLimit with
                    | some found => .command found
                    | none => misuse

end Invocation

end Bhasha
