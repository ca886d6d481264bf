import KubeCompose.Script.Syntax
import KubeCompose.Script.Format
import KubeCompose.Text.Utf8
import KubeCompose.Workspace

/-!
# The state of a script

A script reads and writes bytes, has variables and arguments, works in a workspace, and has used up
a part of the time that it is given.
-/

namespace KubeCompose.Script

/-- Where a stream goes. -/
inductive Stream where
  | output
  | errors
  | pipe
  | nowhere
  | file (path : String)
  deriving DecidableEq, Repr

/-- The streams of a command. -/
structure Streams where
  output : Stream
  errors : Stream

/-- How a command ends: the script goes on, its loop is over or has its next round, the script is
over, it is killed, or its time is up. -/
inductive Flow where
  | next
  | stop
  | again
  | leave
  | killed
  | overdue
  deriving DecidableEq, Repr

/-- The state of a script that runs. `caller` is what stands in front of the name of a program that
is not found; `strict` holds when a failure ends the script. -/
structure State where
  workspace : Workspace
  arguments : List String
  bindings : OrderedMap String String
  input : List UInt8
  output : ByteArray
  errors : ByteArray
  piped : ByteArray
  status : Nat
  line : Nat
  caller : String
  strict : Bool
  elapsed : Nat
  limit : Nat

namespace State

/-- The value of a variable. -/
def binding (s : State) (name : String) : String := (OrderedMap.find? s.bindings name).getD ""

/-- Gives a variable a value. -/
def bind (s : State) (name value : String) : State :=
  { s with bindings := OrderedMap.insert s.bindings name value }

/-- The value of a parameter. -/
def parameter (s : State) (name : String) : String :=
  match name with
  | "@" | "*" => Text.join " " s.arguments
  | "#" => Number.decimal s.arguments.length
  | "?" => Number.decimal s.status
  | name =>
    match Number.readDigits? 10 name.toList with
    | some 0 | none => s.binding name
    | some (n + 1) => (s.arguments[n]?).getD ""

/-- The state with another status. -/
def withStatus (s : State) (status : Nat) : State := { s with status := status }

/-- Writes bytes to a stream. -/
def write (s : State) (stream : Stream) (bytes : ByteArray) : State :=
  match stream with
  | .output => { s with output := s.output ++ bytes }
  | .errors => { s with errors := s.errors ++ bytes }
  | .pipe => { s with piped := s.piped ++ bytes }
  | .nowhere => s
  | .file path =>
    match s.workspace.read path with
    | .error _ => s
    | .ok before =>
      match s.workspace.write path (before ++ bytes) with
      | .ok workspace => { s with workspace := workspace }
      | .error _ => s

/-- Writes a text to a stream. -/
def say (s : State) (stream : Stream) (text : String) : State := s.write stream text.toUTF8

/-- Complains about something in the present line. -/
def complain (s : State) (stream : Stream) (text : String) : State :=
  s.say stream (s.binding "0" ++ ": " ++ Number.decimal s.line ++ ": " ++ text ++ "\n")

end State

/-- The wording of a cause without the number that the system gives it. -/
def causeText (e : FileError) : String :=
  Text.trimmed (String.ofList (Text.before '(' e.message.toList))

/-- What a script needs of its surroundings: to start a program, and to run a script for what it
writes. -/
structure Shell where
  start : Streams → List String → State → Flow × State
  outputOf : List Char → State → String × State

/-! ### Values of words -/

/-- The part that a piece becomes. -/
def Piece.settle (shell : Shell) (s : State) : Piece → Part × State
  | .text chars quoted => (.text chars quoted, s)
  | .parameter "@" _ true => (.each s.arguments, s)
  | .parameter name otherwise quoted =>
    let value := s.parameter name
    (.value (if value = "" then String.ofList otherwise else value) quoted, s)
  | .output script quoted =>
    let (written, s) := shell.outputOf script s
    (.value written quoted, s)
  | .number expression =>
    let n := calculation (fun name => wholeNumber (s.parameter name).toList) expression
    (.value (Number.decimalInt n) true, s)

/-- The parts that a word becomes. -/
def settle (shell : Shell) : Word → State → List Part × State
  | [], s => ([], s)
  | piece :: rest, s =>
    let (part, s) := piece.settle shell s
    let (parts, s) := settle shell rest s
    (part :: parts, s)

/-- The fields of words. -/
def settleFields (shell : Shell) : List Word → State → List String × State
  | [], s => ([], s)
  | w :: rest, s =>
    let (parts, s) := settle shell w s
    let (fields, s) := settleFields shell rest s
    (fieldsOf parts ++ fields, s)

/-- The text of a word. -/
def settleText (shell : Shell) (w : Word) (s : State) : String × State :=
  let (parts, s) := settle shell w s
  (textOf parts, s)

/-- Makes assignments in order. -/
def assign (shell : Shell) : List (String × Word) → State → State
  | [], s => s
  | (name, w) :: rest, s =>
    let (text, s) := settleText shell w s
    assign shell rest (s.bind name text)

/-! ### Redirections -/

/-- The file that swallows what is written to it and is empty. -/
def emptyDevice : String := "/dev/null"

/-- Opens a file for a stream. -/
def openFile (s : State) (path : String) (fresh : Bool) : Except FileError (Stream × State) :=
  if path = emptyDevice then .ok (.nowhere, s)
  else if s.workspace.isFile path && !fresh then .ok (.file path, s)
  else
    match s.workspace.write path .empty with
    | .ok workspace => .ok (.file path, { s with workspace := workspace })
    | .error e => .error e

/-- Why a file cannot be opened. -/
def openingText (reading : Bool) (path : String) (e : FileError) : String :=
  match reading, e with
  | true, .notFound => "cannot open " ++ path ++ ": No such file"
  | true, e => "cannot open " ++ path ++ ": " ++ causeText e
  | false, .notFound => "cannot create " ++ path ++ ": Directory nonexistent"
  | false, e => "cannot create " ++ path ++ ": " ++ causeText e

/-- Applies redirections in order, up to the first whose file cannot be opened. -/
def redirect (shell : Shell) (streams : Streams) :
    List Redirect → State → Option Streams × State
  | [], s => (some streams, s)
  | r :: rest, s =>
    let (target, s) := settleText shell r.target s
    let onto (stream : Stream) : Streams :=
      if r.stream = 2 then { streams with errors := stream } else { streams with output := stream }
    let toFile (fresh : Bool) :=
      match openFile s target fresh with
      | .ok (stream, s) => redirect shell (onto stream) rest s
      | .error e => (none, s.complain streams.errors (openingText false target e))
    match r.kind with
    | .toStream =>
      redirect shell (onto (if target = "2" then streams.errors else streams.output)) rest s
    | .onto => toFile true
    | .behind => toFile false
    | .inputText => redirect shell streams rest { s with input := target.toUTF8.toList }
    | .input =>
      if target = emptyDevice then redirect shell streams rest { s with input := [] }
      else
        match s.workspace.read target with
        | .ok bytes => redirect shell streams rest { s with input := bytes.toList }
        | .error e => (none, s.complain streams.errors (openingText true target e))

/-- Does something with redirected streams; the input is again what it was afterwards. -/
def redirected (shell : Shell) (streams : Streams) (redirects : List Redirect) (s : State)
    (body : Streams → State → Flow × State) : Flow × State :=
  match redirect shell streams redirects s with
  | (none, s) => (.next, s.withStatus 2)
  | (some streams, inner) =>
    let (flow, after) := body streams inner
    let isRead := redirects.any fun r => r.kind = .input || r.kind = .inputText
    (flow, if isRead then { after with input := s.input } else after)

end KubeCompose.Script
