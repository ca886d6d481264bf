import KubeCompose.Script.Builtin
import KubeCompose.Script.Program
import KubeCompose.Tool.Invocation

/-!
# Running scripts

A script runs in a workspace, and it takes no time but that for which it sleeps. A launcher of
scripts stands in for the tools, so that a whole conversion can be rehearsed without leaving the
workspace.
-/

namespace KubeCompose.Script

/-! ### Commands -/

/-- Runs the words of a call. -/
def runWords (shell : Shell) (streams : Streams) (words : List String) (s : State) : Flow × State :=
  match words with
  | [] => (.next, s)
  | "exec" :: [] => (.next, s)
  | "exec" :: words =>
    match shell.start streams words { s with caller := "exec: " } with
    | (.next, s) => (.leave, s)
    | result => result
  | words => (builtin? streams words s).getD (shell.start streams words { s with caller := "" })

/-- How many rounds of a loop may be run before its time is up. -/
def roundLimit : Nat := 1000000

/-- Runs the rounds of a loop, at most `n` of them; `last` is the status of the round before. -/
def repeatWhile (whileTrue : Bool) (condition body : State → Flow × State) :
    Nat → Nat → State → Flow × State
  | 0, _, s => (.overdue, s)
  | n + 1, last, s =>
    match condition s with
    | (.next, s) =>
      if (s.status == 0) = whileTrue then
        match body s with
        | (.next, s) | (.again, s) => repeatWhile whileTrue condition body n s.status s
        | (.stop, s) => (.next, s)
        | result => result
      else (.next, s.withStatus last)
    | (.stop, s) => (.next, s)
    | result => result

/-- Runs the round of a loop for each of the texts. -/
def repeatFor (name : String) (body : State → Flow × State) : List String → State → Flow × State
  | [], s => (.next, s)
  | text :: rest, s =>
    match body (s.bind name text) with
    | (.next, s) | (.again, s) => repeatFor name body rest s
    | (.stop, s) => (.next, s)
    | result => result

/-- The state after a part of a script that runs for itself: its variables, its arguments and its
directory are what they were. -/
def restored (before after : State) : State :=
  { after with
    bindings := before.bindings
    arguments := before.arguments
    workspace := { after.workspace with here := before.workspace.here }
    strict := before.strict }

/-- The end of a part of a script that runs for itself. -/
def endApart (before : State) : Flow × State → Flow × State
  | (.overdue, s) => (.overdue, s)
  | (.killed, s) => (.killed, s)
  | (_, s) => (.next, restored before s)

/-- Does something whose failure does not end the script. -/
def leniently (body : State → Flow × State) (s : State) : Flow × State :=
  let (flow, after) := body { s with strict := false }
  (flow, { after with strict := s.strict })

/-- Whether a command is one whose failure never ends the script. -/
def isLenient : Command → Bool
  | .both .. | .either .. | .negation _ => true
  | _ => false

/-- Whether one of the patterns fits a text. -/
def fitsAny (shell : Shell) (text : String) : List Word → State → Bool × State
  | [], s => (false, s)
  | w :: rest, s =>
    let (parts, s) := settle shell w s
    if fits (patternOf parts) text.toList then (true, s) else fitsAny shell text rest s

/-- Runs a command. -/
def run (shell : Shell) (streams : Streams) : Command → State → Flow × State
  | .nothing, s => (.next, s)
  | .call line assignments words redirects, s =>
    let (words, s) := settleFields shell words { s with line := line }
    redirected shell streams redirects s fun streams s =>
      let s := if words.isEmpty then s.withStatus 0 else s
      runWords shell streams words (assign shell assignments s)
  | .group body redirects, s =>
    redirected shell streams redirects s fun streams s => run shell streams body s
  | .apart body, s => endApart s (run shell streams body s)
  | .next first second, s =>
    match run shell streams first s with
    | (.next, s) =>
      if s.strict && s.status != 0 && !isLenient first then (.leave, s)
      else run shell streams second s
    | result => result
  | .both first second, s =>
    match leniently (fun s => run shell streams first s) s with
    | (.next, s) => if s.status = 0 then run shell streams second s else (.next, s)
    | result => result
  | .either first second, s =>
    match leniently (fun s => run shell streams first s) s with
    | (.next, s) => if s.status = 0 then (.next, s) else run shell streams second s
    | result => result
  | .negation body, s =>
    match leniently (fun s => run shell streams body s) s with
    | (.next, s) => (.next, s.withStatus (if s.status = 0 then 1 else 0))
    | result => result
  | .pipe first second, s =>
    let outer := s.piped
    let inside := { streams with output := .pipe }
    match endApart s (run shell inside first { s with piped := .empty }) with
    | (.next, s) =>
      let rest := s.input
      match endApart s (run shell streams second { s with input := s.piped.toList, piped := outer })
      with
      | (.next, s) => (.next, { s with input := rest })
      | result => result
    | result => result
  | .branch condition yes no, s =>
    match leniently (fun s => run shell streams condition s) s with
    | (.next, s) =>
      if s.status = 0 then run shell streams yes s
      else run shell streams no (s.withStatus 0)
    | result => result
  | .choice subject patterns body others, s =>
    let (text, s) := settleText shell subject s
    let (isChosen, s) := fitsAny shell text patterns s
    if isChosen then run shell streams body (s.withStatus 0) else run shell streams others s
  | .loop whileTrue condition body, s =>
    repeatWhile whileTrue (leniently fun s => run shell streams condition s)
      (fun s => run shell streams body s) roundLimit 0 s
  | .each name words body, s =>
    let (texts, s) := settleFields shell words s
    repeatFor name (fun s => run shell streams body s) texts (s.withStatus 0)

/-! ### Programs -/

/-- The directories of the common programs. -/
def commonDirectories : List String := ["/bin", "/usr/bin"]

/-- What a path or a name of a program leads to. -/
inductive Program where
  | common (name : String)
  | script (path text : String) (strict : Bool)
  deriving DecidableEq, Repr

/-- The common program at a path. -/
def commonAt? (path : String) : Option String :=
  match Path.parent? path, Path.fileName? path with
  | some directory, some name =>
    if commonDirectories.contains directory && commonPrograms.contains name then some name else none
  | _, _ => none

/-- The command by which the first line of a script asks to be read. -/
def interpreter? (text : String) : Option String :=
  match text.toList with
  | '#' :: '!' :: r => some (Text.trimmed (String.ofList (r.takeWhile (· != '\n'))))
  | _ => none

/-- The commands by which scripts are read. -/
def interpreters : List String :=
  ["/bin/sh", "/usr/bin/sh", "/usr/bin/env sh", "/bin/bash", "/usr/bin/env bash"]

/-- The commands by which scripts are read that end with the first failure. -/
def strictInterpreters : List String := ["/bin/sh -e", "/usr/bin/sh -e", "/bin/bash -e"]

/-- The program at a path. -/
def programAt (w : Workspace) (path : String) : Except FileError Program :=
  match commonAt? path with
  | some name => .ok (.common name)
  | none =>
    match w.entryAt path with
    | .error e => .error e
    | .ok (.file content true) =>
      let text := Text.ofBytes content
      match interpreter? text with
      | none => .error .notProgram
      | some i =>
        if interpreters.contains i then .ok (.script path text false)
        else if strictInterpreters.contains i then .ok (.script path text true)
        else .error .notFound
    | .ok _ => .error .permissionDenied

/-- The program of a name: a path, or a name in one of the directories. A file there that is no
program is passed over as long as another directory may have one. -/
def findProgram (directories : List String) (w : Workspace) (name : String) :
    Except FileError Program :=
  if name.toList.contains '/' then programAt w name
  else if name = "" then .error .notFound
  else
    let found := directories.map fun directory => programAt w (Path.child directory name)
    let isFinal (result : Except FileError Program) : Bool :=
      match result with
      | .error .notFound | .error .notDirectory | .error .permissionDenied => false
      | _ => true
    let isRefusal (result : Except FileError Program) : Bool :=
      match result with
      | .error .permissionDenied => true
      | _ => false
    match (found.find? isFinal).or (found.find? isRefusal) with
    | some result => result
    | none => .error .notFound

/-- Runs a text as a script with its own name, arguments and variables. -/
def runText (shell : Shell) (streams : Streams) (name : String) (text : List Char)
    (arguments : List String) (strict : Bool) (s : State) : Flow × State :=
  match Command.ofText? text with
  | none => (.next, (s.say streams.errors (name ++ ": 1: Syntax error\n")).withStatus 2)
  | some command =>
    endApart s <|
      run shell streams command
        { s with arguments := arguments, bindings := [("0", name)], status := 0, strict := strict }

/-- Runs the shell as a program: a text behind `-c`, or the script of a file. -/
def runShell (shell : Shell) (streams : Streams) (arguments : List String) (s : State) :
    Flow × State :=
  match arguments with
  | "-c" :: text :: name :: arguments => runText shell streams name text.toList arguments false s
  | ["-c", text] => runText shell streams "sh" text.toList [] false s
  | [] =>
    let text := Text.ofBytes ⟨s.input.toArray⟩
    runText shell streams "sh" text.toList [] false { s with input := [] }
  | path :: arguments =>
    match s.workspace.readText path with
    | .ok text => runText shell streams path text.toList arguments false s
    | .error e =>
      (.next, (s.say streams.errors ("sh: 0: " ++ openingText true path e ++ "\n")).withStatus 2)

/-- Starts a program by its name. -/
def startProgram (directories : List String) (shell : Shell) (streams : Streams)
    (words : List String) (s : State) : Flow × State :=
  match words with
  | [] => (.next, s)
  | name :: arguments =>
    match findProgram directories s.workspace name with
    | .ok (.script path text strict) => runText shell streams path text.toList arguments strict s
    | .ok (.common "sh") => runShell shell streams arguments s
    | .ok (.common name) =>
      ((common? streams name arguments s).or (builtin? streams (name :: arguments) s)).getD
        (refuse streams name "invalid arguments" s)
    | .error .notFound =>
      (.next, (s.complain streams.errors (s.caller ++ name ++ ": not found")).withStatus 127)
    | .error e =>
      (.next, (s.complain streams.errors (s.caller ++ name ++ ": " ++ causeText e)).withStatus 126)

/-- What a script writes, without the line ends behind it. -/
def outputOf (shell : Shell) (script : List Char) (s : State) : String × State :=
  match Command.ofText? script with
  | none => ("", s.withStatus 2)
  | some command =>
    let inner := { s with piped := .empty }
    let (_, after) := endApart inner (run shell ⟨.pipe, .errors⟩ command inner)
    let text := Text.dropTrailing (· == '\n') (Text.ofBytes after.piped).toList
    (String.ofList text, { restored s after with piped := s.piped })

/-- The surroundings of a script whose programs are in some directories, with programs within
programs to a depth of `n`. -/
def shellWithin (directories : List String) : Nat → Shell
  | 0 => ⟨fun _ _ s => (.next, s.withStatus 126), fun _ s => ("", s)⟩
  | n + 1 =>
    let inner := shellWithin directories n
    ⟨startProgram directories inner, outputOf inner⟩

/-- How deep programs may call programs. -/
def maxDepth : Nat := 16

/-- The workspace as seen from the directory of a call. -/
def enterIfGiven (w : Workspace) : Option String → Except FileError Workspace
  | none => .ok w
  | some directory => enter w directory

/-- How many bytes a pipe holds that were not read. -/
def pipeCapacity : Nat := 65536

/-- The launcher of scripts and of the common programs in some directories. No program ends in no
time at all, and none before the pipe to it is filled. -/
def launcher (directories : List String) : Launcher Workspace := fun i limit w =>
  match enterIfGiven w i.directory with
  | .error e => (.error e, w)
  | .ok inside =>
    match findProgram directories inside i.program with
    | .error e => (.error e, w)
    | .ok _ =>
      let start : State :=
        { workspace := inside
          arguments := []
          bindings := []
          input := ((i.input.getD "").toUTF8).toList
          output := .empty
          errors := .empty
          piped := .empty
          status := 0
          line := 1
          caller := ""
          strict := false
          elapsed := 0
          limit := limit }
      let (flow, s) :=
        (shellWithin directories maxDepth).start ⟨.output, .errors⟩ (i.program :: i.arguments) start
      let ending : Ending :=
        match flow with
        | .overdue => .overdue
        | flow =>
          if limit = 0 then .overdue
          else if flow = .killed then .killed
          else .exited s.status
      let taken := start.input.length - s.input.length
      (.ok ⟨ending, s.output, s.errors, taken + pipeCapacity⟩, { s.workspace with here := w.here })

end KubeCompose.Script
