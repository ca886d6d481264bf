import KubeCompose.FileTree.Error
import KubeCompose.Number.Digits
import KubeCompose.Text.Blank
import KubeCompose.Text.Fields
import KubeCompose.Text.Utf8

/-!
# Calling external tools

A tool is called with an invocation and a limit of time. How a program is started is left open: a
launcher takes an invocation, the limit and a state of the world, and says how the program ended and
what the world is afterwards. `Launcher.run` turns that into an output or an error.
-/

namespace KubeCompose

/-- A program with its arguments, the directory in which it runs and what it reads. -/
structure Invocation where
  program : String
  arguments : List String
  directory : Option String
  input : Option String
  deriving DecidableEq, Repr

namespace Invocation

/-- A call of a program that runs in the present directory and reads nothing. -/
def of (program : String) (arguments : List String) : Invocation := ⟨program, arguments, none, none⟩

/-- Whether a call holds a character that no program can be given. -/
def hasNul (i : Invocation) : Bool :=
  (i.program :: i.arguments ++ i.directory.toList).any fun text => text.toList.contains '\x00'

/-- The command line, as errors show it; what the program reads is not part of it. -/
def commandLine (i : Invocation) : String := Text.join " " (i.program :: i.arguments)

end Invocation

/-- How a program ends. -/
inductive Ending where
  | exited (status : Nat)
  | killed
  | overdue
  deriving DecidableEq, Repr

/-- The end of a program, what it wrote, and how many bytes could be written for it to read before
nothing took them any more. -/
structure Finish where
  ending : Ending
  output : ByteArray
  errors : ByteArray
  accepted : Nat

/-- A limit of time in milliseconds. -/
abbrev Limit := Nat

/-- A way to start programs; one that cannot be started has a file error. -/
abbrev Launcher (σ : Type) := Invocation → Limit → σ → Except FileError Finish × σ

/-- Why a call of a tool fails. -/
inductive ToolError where
  | notFound (program : String)
  | overdue (command : String) (limit : Limit)
  | failed (command : String) (status : Option Nat) (errors : String)
  | missingDockerfile (path : String)
  | file (cause : FileError)
  deriving DecidableEq, Repr

namespace ToolError

/-- How a program ended that failed: with a status, or by a signal. -/
def statusText : Option Nat → String
  | some status => "exit " ++ Number.decimal status
  | none => "terminated by signal"

/-- The wording of an error. A limit is given in whole seconds. -/
def message : ToolError → String
  | .notFound program => "'" ++ program ++ "' not found on PATH"
  | .overdue command limit =>
    "'" ++ command ++ "' timed out after " ++ Number.decimal (limit / 1000) ++ "s"
  | .failed command status errors =>
    "'" ++ command ++ "' failed (" ++ statusText status ++ "): " ++ errors
  | .missingDockerfile path => "Dockerfile not found: " ++ path
  | .file cause => "IO error: " ++ cause.message

/-- What a program that failed wrote about it. -/
def errors? : ToolError → Option String
  | .failed _ _ errors => some errors
  | _ => none

end ToolError

/-- What a program wrote. -/
structure ToolOutput where
  output : String
  errors : String
  deriving DecidableEq, Repr

/-- Whether a program was given all that it was to read. -/
def Finish.received (f : Finish) (i : Invocation) : Bool :=
  (i.input.getD "").utf8ByteSize ≤ f.accepted

/-- The result of a call: a program must be given its input, and end by itself, in time and with
status zero. The input is written before the end is waited for. -/
def Finish.result (f : Finish) (i : Invocation) (limit : Limit) : Except ToolError ToolOutput :=
  let errors := Text.trimmed (Text.ofBytes f.errors)
  if f.received i then
    match f.ending with
    | .overdue => .error (.overdue i.commandLine limit)
    | .killed => .error (.failed i.commandLine none errors)
    | .exited 0 => .ok ⟨Text.ofBytes f.output, errors⟩
    | .exited status => .error (.failed i.commandLine (some status) errors)
  else .error (.file .brokenPipe)

/-- Calls a tool. -/
def Launcher.run {σ : Type} (launch : Launcher σ) (limit : Limit) (i : Invocation) (s : σ) :
    Except ToolError ToolOutput × σ :=
  if i.hasNul then (.error (.file .nulInCall), s)
  else
    match launch i limit s with
    | (.ok finish, s) => (finish.result i limit, s)
    | (.error .notFound, s) => (.error (.notFound i.program), s)
    | (.error e, s) => (.error (.file e), s)

end KubeCompose
