import KubeCompose.Script.State

/-!
# Common programs

Programs that every script may call: they copy, cut and count what they read, and make and take away
files.
-/

namespace KubeCompose.Script

/-! ### Texts -/

/-- The milliseconds of a number of seconds with at most three decimals. -/
def milliseconds (text : String) : Nat :=
  let number (digits : List Char) : Nat := (Number.readDigits? 10 digits).getD 0
  match Text.cutAt? '.' text.toList with
  | none => number text.toList * 1000
  | some (whole, fraction) => number whole * 1000 + number ((fraction ++ "000".toList).take 3)

/-- Puts `replacement` for the first part of a line that fits the pattern, as long as possible. -/
def replaceFirst (pattern : List Wildcard) (replacement line : List Char) : List Char :=
  let longest (cs : List Char) : Option Nat :=
    ((List.range (cs.length + 1)).reverse).find? fun n => fits pattern (cs.take n)
  match (ends line).findSome? fun tail => (longest tail).map fun n => (tail, n) with
  | none => line
  | some (tail, n) => line.take (line.length - tail.length) ++ replacement ++ tail.drop n

/-- The pattern of an edit: a dot is any character, with a star behind it any text. -/
def editPattern : List Char → List Wildcard
  | '.' :: '*' :: r => .anyText :: editPattern r
  | '.' :: r => .anyChar :: editPattern r
  | '\\' :: c :: r => .exactly c :: editPattern r
  | c :: r => .exactly c :: editPattern r
  | [] => []

/-- The edit that a text describes: of the form `s#pattern#replacement#`, with any mark. -/
def edit? (text : String) : Option (List Char → List Char) :=
  match text.toList with
  | 's' :: mark :: r =>
    match Text.splitOn mark r with
    | pattern :: replacement :: _ => some (replaceFirst (editPattern pattern) replacement)
    | _ => none
  | _ => none

/-- The bytes of lines up to and with their ends; the last one may have none. -/
def byteLines (bytes : List UInt8) : List (List UInt8) :=
  match bytes with
  | [] => []
  | b :: r =>
    let line := (b :: r).takeWhile (· != 10)
    (line ++ ((b :: r).drop line.length).take 1) :: byteLines (r.drop line.length)
termination_by bytes.length
decreasing_by
  simp only [List.length_drop, List.length_cons]
  omega

/-- The characters of a set: a dash between two of them stands for all between them. -/
def setBytes : List UInt8 → List UInt8
  | a :: 45 :: b :: r =>
    (List.range (b.toNat + 1 - a.toNat)).map (fun n => (a.toNat + n).toUInt8) ++ setBytes r
  | a :: r => a :: setBytes r
  | [] => []

/-- The byte that stands for another one, by its place in two sets; the last one of the second set
stands for all further ones. -/
def exchanged (source target : List UInt8) (b : UInt8) : UInt8 :=
  match source.idxOf? b with
  | some n => (target[n]?).getD (target.getLast?.getD b)
  | none => b

/-- How many words are in a text. -/
def wordCount (bytes : List UInt8) : Nat :=
  ((bytes.splitBy fun a b => isBlank a == isBlank b).filter fun run => !run.any isBlank).length
where
  /-- Whether a byte is white space. -/
  isBlank (b : UInt8) : Bool := b == 32 || (9 ≤ b && b ≤ 13)

/-- The count that an option asks for. -/
def countOf (option : String) (bytes : List UInt8) : Nat :=
  match option with
  | "-l" => bytes.count 10
  | "-w" => wordCount bytes
  | "-m" => (Text.ofBytes ⟨bytes.toArray⟩).length
  | _ => bytes.length

/-- The part of a text that an option asks for: a number of bytes or of lines at the front, or at
the end when `atEnd` holds. -/
def excerpt (atEnd inBytes : Bool) (n : Nat) (bytes : List UInt8) : List UInt8 :=
  if inBytes then if atEnd then bytes.drop (bytes.length - n) else bytes.take n
  else
    let lines := byteLines bytes
    (if atEnd then lines.drop (lines.length - n) else lines.take n).flatten

/-! ### Input and output -/

/-- Writes bytes, with the status of success. -/
def put (streams : Streams) (bytes : List UInt8) (s : State) : Flow × State :=
  (.next, (s.write streams.output ⟨bytes.toArray⟩).withStatus 0)

/-- Writes a line, with the status of success. -/
def putLine (streams : Streams) (text : String) (s : State) : Flow × State :=
  (.next, (s.say streams.output (text ++ "\n")).withStatus 0)

/-- Fails with a word of the program. -/
def refuse (streams : Streams) (program text : String) (s : State) : Flow × State :=
  (.next, (s.say streams.errors (program ++ ": " ++ text ++ "\n")).withStatus 1)

/-- The bytes of files, or of the input when there are none, and the state behind that. A file that
cannot be read gives its name and the cause. -/
def readAll (files : List String) (s : State) :
    Except (String × FileError) (List UInt8) × State :=
  if files.isEmpty then (.ok s.input, { s with input := [] })
  else
    files.foldl
      (fun (bytes, s) file =>
        match bytes with
        | .error e => (.error e, s)
        | .ok bytes =>
          if file = "-" then (.ok (bytes ++ s.input), { s with input := [] })
          else
            match s.workspace.read file with
            | .ok more => (.ok (bytes ++ more.toList), s)
            | .error e => (.error (file, e), s))
      (.ok [], s)

/-- Writes what a function makes of the bytes of files. -/
def filter (streams : Streams) (program : String) (files : List String)
    (f : List UInt8 → List UInt8) (s : State) : Flow × State :=
  match readAll files s with
  | (.ok bytes, s) => put streams (f bytes) s
  | (.error (file, e), s) => refuse streams program (file ++ ": " ++ causeText e) s

/-- Takes the time for which a command sleeps. -/
def sleep (time : Nat) (s : State) : Flow × State :=
  if s.elapsed + time > s.limit then (.overdue, s)
  else (.next, { s with elapsed := s.elapsed + time, status := 0 })

/-! ### Files -/

/-- Changes the workspace, path by path; what cannot be done is said and leads to the status of
failure. -/
def changeEach (streams : Streams) (program what : String) (paths : List String)
    (change : Workspace → String → Except FileError Workspace) (s : State) : Flow × State :=
  let s := paths.foldl
    (fun s path =>
      match change s.workspace path with
      | .ok workspace => { s with workspace := workspace }
      | .error e =>
        (refuse streams program ("cannot " ++ what ++ " '" ++ path ++ "': " ++ causeText e) s).2)
    (s.withStatus 0)
  (.next, s)

/-- Takes away what a path leads to, with all that is below it. -/
def removeAll (w : Workspace) (path : String) : Except FileError Workspace :=
  match w.place path false with
  | .ok (.present location .directory) =>
    .ok { w with files := w.files.filter fun (l, _) => !location.isPrefixOf l }
  | .ok (.present ..) => w.delete path
  | .ok (.absent _) => .error .notFound
  | .error e => .error e

/-- Makes a file, unless it is there. -/
def touch (w : Workspace) (path : String) : Except FileError Workspace :=
  if w.exists? path then .ok w else w.write path .empty

/-- Makes a directory and those above it. -/
def makeAll (w : Workspace) (path : String) : Except FileError Workspace :=
  match (Workspace.makeDirectories path).run w with
  | (.ok (), w) => .ok w
  | (.error e, _) => .error e

/-- A path, or the path of the same name in it when it leads to a directory. -/
def inDirectory (w : Workspace) (target source : String) : String :=
  if w.isDirectory target then Path.child target ((Path.fileName? source).getD "") else target

/-- The options in front of other arguments, as letters, and those arguments. -/
def letters (arguments : List String) : List Char × List String :=
  let options := arguments.takeWhile fun a => a.startsWith "-" && a != "-"
  (options.flatMap fun a => a.toList.drop 1, arguments.drop options.length)

/-! ### Programs -/

/-- The number and the files of a program that shows an excerpt, and whether bytes are counted. -/
def excerptArguments : List String → Bool × Nat × List String
  | "-n" :: n :: files => (false, wholeNumber n.toList |>.toNat, files)
  | "-c" :: n :: files => (true, wholeNumber n.toList |>.toNat, files)
  | option :: files =>
    match option.toList with
    | '-' :: 'n' :: n => (false, (wholeNumber n).toNat, files)
    | '-' :: 'c' :: n => (true, (wholeNumber n).toNat, files)
    | '-' :: d :: n => (false, (wholeNumber (d :: n)).toNat, files)
    | _ => (false, 10, option :: files)
  | [] => (false, 10, [])

/-- Runs one of the common programs; none when it is not among them. -/
def common? (streams : Streams) (program : String) (arguments : List String) (s : State) :
    Option (Flow × State) :=
  match program, arguments with
  | "cat", files => some (filter streams program files id s)
  | "head", arguments =>
    let (inBytes, n, files) := excerptArguments arguments
    some (filter streams program files (excerpt false inBytes n) s)
  | "tail", arguments =>
    let (inBytes, n, files) := excerptArguments arguments
    some (filter streams program files (excerpt true inBytes n) s)
  | "wc", option :: files =>
    let shown (bytes : List UInt8) : List UInt8 :=
      (Text.join " " (Number.decimal (countOf option bytes) :: files) ++ "\n").toUTF8.toList
    some (filter streams program files shown s)
  | "tr", ["-d", set] =>
    let set := setBytes (escapedBytes (set.length + 1) set.toList .empty).1.toList
    some (filter streams program [] (·.filter (!set.contains ·)) s)
  | "tr", [source, target] =>
    let bytesOf (set : String) :=
      setBytes (escapedBytes (set.length + 1) set.toList .empty).1.toList
    some (filter streams program [] (·.map (exchanged (bytesOf source) (bytesOf target))) s)
  | "sed", [text] =>
    (edit? text).map fun edit =>
      let edited (bytes : List UInt8) : List UInt8 :=
        let lines := Text.splitOn '\n' (Text.ofBytes ⟨bytes.toArray⟩).toList
        (Text.join "\n" (lines.map fun line => String.ofList (edit line))).toUTF8.toList
      filter streams program [] edited s
  | "tee", files =>
    match readAll [] s with
    | (.ok bytes, s) =>
      let (_, s) := changeEach streams program "open" files (fun w f => w.write f ⟨bytes.toArray⟩) s
      some (put streams bytes s)
    | (.error _, s) => some (.next, s)
  | "seq", bounds =>
    let numbers := bounds.map fun b => (wholeNumber b.toList).toNat
    let (first, last) := match numbers with
      | [last] => (1, last)
      | first :: last :: _ => (first, last)
      | [] => (1, 0)
    let lines := (List.range (last + 1 - first)).map fun n => Number.decimal (first + n) ++ "\n"
    some (put streams (String.join lines).toUTF8.toList s)
  | "sleep", [time] => some (sleep (milliseconds time) s)
  | "basename", path :: _ => some (putLine streams ((Path.fileName? path).getD path) s)
  | "dirname", [path] =>
    let above := (Path.parent? path).getD path
    some (putLine streams (if above = "" then "." else above) s)
  | "ls", arguments =>
    let (_, paths) := letters arguments
    let path := paths.headD "."
    if s.workspace.isDirectory path then
      let names := ((s.workspace.list path).map (·.1)).filter fun name => !name.startsWith "."
      some (put streams (String.join (names.map (· ++ "\n"))).toUTF8.toList s)
    else if s.workspace.exists? path then some (putLine streams path s)
    else
      let (_, s) := refuse streams program
        ("cannot access '" ++ path ++ "': " ++ causeText .notFound) s
      some (.next, s.withStatus 2)
  | "mkdir", arguments =>
    let (options, paths) := letters arguments
    let make := if options.contains 'p' then makeAll else Workspace.makeDirectory
    some (changeEach streams program "create directory" paths make s)
  | "touch", paths => some (changeEach streams program "touch" paths touch s)
  | "rm", arguments =>
    let (options, paths) := letters arguments
    let remove (w : Workspace) (path : String) : Except FileError Workspace :=
      match if options.any "rR".toList.contains then removeAll w path else w.delete path with
      | .error .notFound => if options.contains 'f' then .ok w else .error .notFound
      | result => result
    some (changeEach streams program "remove" paths remove s)
  | "cp", [source, target] =>
    some <| changeEach streams program "stat" [source]
      (fun w source => w.copy source (inDirectory w target source)) s
  | "mv", [source, target] =>
    some <| changeEach streams program "stat" [source]
      (fun w source => w.move source (inDirectory w target source)) s
  | _, _ => none

/-- The names of the common programs. -/
def commonPrograms : List String :=
  ["cat", "head", "tail", "wc", "tr", "sed", "tee", "seq", "sleep", "basename", "dirname", "ls",
   "mkdir", "touch", "rm", "cp", "mv", "sh", "true", "false", "echo", "printf", "pwd", "test"]

end KubeCompose.Script
