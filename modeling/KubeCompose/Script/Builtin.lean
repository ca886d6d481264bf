import KubeCompose.Script.State

/-!
# Commands that are built in

These commands belong to the script itself: they write, test, and change the state of the script.
-/

namespace KubeCompose.Script

/-- Whether a test of one text holds. -/
def unaryHolds (w : Workspace) (test text : String) : Bool :=
  match test with
  | "!" => text == ""
  | "-n" => text != ""
  | "-z" => text == ""
  | "-f" => w.isFile text
  | "-d" => w.isDirectory text
  | "-e" | "-r" => w.exists? text
  | "-s" => (w.read text).toOption.any fun bytes => !bytes.isEmpty
  | "-x" =>
    match w.entryAt text with
    | .ok (.file _ executable) => executable
    | .ok .directory => true
    | _ => false
  | _ => false

/-- Whether a test of two texts holds. -/
def binaryHolds (test a b : String) : Bool :=
  let m := wholeNumber a.toList
  let n := wholeNumber b.toList
  match test with
  | "=" => a == b
  | "!=" => a != b
  | "-eq" => m == n
  | "-ne" => m != n
  | "-gt" => n < m
  | "-ge" => n ≤ m
  | "-lt" => m < n
  | "-le" => m ≤ n
  | _ => false

/-- Whether a test of up to three texts, or its opposite, holds. -/
def testHolds (w : Workspace) (texts : List String) : Bool :=
  match texts with
  | [] => false
  | [text] => text != ""
  | [test, text] => unaryHolds w test text
  | [a, test, b] => if a = "!" then !unaryHolds w test b else binaryHolds test a b
  | mark :: rest =>
    match rest with
    | [a, test, b] => mark == "!" && !binaryHolds test a b
    | _ => false

/-- The words of a line, divided at blanks. -/
def blankWords (cs : List Char) : List String :=
  ((Text.splitOn ' ' (cs.map fun c => if c = '\t' then ' ' else c)).filter
    fun w => !w.isEmpty).map String.ofList

/-- A text without the blanks at its ends. -/
def withoutBlanks (cs : List Char) : List Char :=
  Text.dropTrailing (fun c => c == ' ' || c == '\t') (cs.dropWhile fun c => c == ' ' || c == '\t')

/-- Reads a line into variables: the last of them takes what the others leave. -/
def readLine (names : List String) (s : State) : State :=
  let line := s.input.takeWhile (· != 10)
  let rest := s.input.drop line.length
  let text := withoutBlanks (Text.ofBytes ⟨line.toArray⟩).toList
  let s := { s with input := rest.drop 1, status := if rest.isEmpty then 1 else 0 }
  match names with
  | [] => s
  | [name] => s.bind name (String.ofList text)
  | first :: others =>
    let words := blankWords text
    let values := words.take others.length ++ [Text.join " " (words.drop others.length)]
    ((first :: others).zip (values ++ others.map fun _ => "")).foldl
      (fun s (name, value) => s.bind name value) s

/-- Writes texts with their escapes, and a line end behind them when it is asked for and no escape
ends the output. -/
def echo (streams : Streams) (lineEnd : Bool) (texts : List String) (s : State) : State :=
  let text := Text.join " " texts
  let (bytes, ended) := escapedBytes (text.length + 1) text.toList .empty
  (s.write streams.output (if lineEnd && !ended then bytes.push 10 else bytes)).withStatus 0

/-- Goes into a directory. -/
def enter (w : Workspace) (path : String) : Except FileError Workspace :=
  match w.place path true with
  | .ok (.present location .directory) => .ok { w with here := location }
  | .ok (.present _ _) => .error .notDirectory
  | .ok (.absent _) => .error .notFound
  | .error e => .error e

/-- Gives the arguments of `export` and its kin to the variables that they name. -/
def bindAll (texts : List String) (s : State) : State :=
  texts.foldl
    (fun s text =>
      match Text.cutAt? '=' text.toList with
      | some (name, value) => s.bind (String.ofList name) (String.ofList value)
      | none => s)
    (s.withStatus 0)

/-- Runs a command that is built in; none when it is not. -/
def builtin? (streams : Streams) (words : List String) (s : State) : Option (Flow × State) :=
  match words with
  | "echo" :: "-n" :: texts => some (.next, echo streams false texts s)
  | "echo" :: texts => some (.next, echo streams true texts s)
  | "printf" :: format :: arguments =>
    let bytes := formatAll (arguments.length + 1) format.toList arguments
    some (.next, (s.write streams.output bytes).withStatus 0)
  | "pwd" :: _ => some (.next, (s.say streams.output (s.workspace.herePath ++ "\n")).withStatus 0)
  | "cd" :: path :: _ =>
    match enter s.workspace path with
    | .ok w => some (.next, { s with workspace := w, status := 0 })
    | .error _ =>
      some (.next, (s.complain streams.errors ("cd: can't cd to " ++ path)).withStatus 2)
  | "read" :: names => some (.next, readLine (names.filter (· != "-r")) s)
  | ["exit"] => some (.leave, s)
  | "exit" :: status :: _ => some (.leave, s.withStatus ((wholeNumber status.toList) % 256).toNat)
  | "kill" :: "-0" :: _ => some (.next, s.withStatus 0)
  | "kill" :: _ => some (.killed, s)
  | "[" :: rest => some (.next, s.withStatus (if testHolds s.workspace rest.dropLast then 0 else 1))
  | "test" :: rest => some (.next, s.withStatus (if testHolds s.workspace rest then 0 else 1))
  | "true" :: _ | ":" :: _ => some (.next, s.withStatus 0)
  | "false" :: _ => some (.next, s.withStatus 1)
  | "shift" :: count =>
    let n := (wholeNumber (count.headD "1").toList).toNat
    some (.next, { s with arguments := s.arguments.drop n, status := 0 })
  | "set" :: "--" :: arguments => some (.next, { s with arguments := arguments, status := 0 })
  | "set" :: "-e" :: _ => some (.next, { s with strict := true, status := 0 })
  | "set" :: "+e" :: _ => some (.next, { s with strict := false, status := 0 })
  | "set" :: _ | "wait" :: _ | "trap" :: _ | "umask" :: _ => some (.next, s.withStatus 0)
  | "unset" :: names =>
    some (.next, names.foldl (fun s name => s.bind name "") (s.withStatus 0))
  | "export" :: texts | "readonly" :: texts => some (.next, bindAll texts s)
  | "break" :: _ => some (.stop, s.withStatus 0)
  | "continue" :: _ => some (.again, s.withStatus 0)
  | _ => none

end KubeCompose.Script
