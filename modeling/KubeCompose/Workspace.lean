import KubeCompose.FileTree.Basic

/-!
# Workspaces

A workspace is a file tree and the directory in which one stands; paths that do not begin at the
root begin there. Questions are answered about it as it is, changes give the workspace that follows,
and an action is a sequence of both that may fail on the way: what was changed before stays changed.
-/

namespace KubeCompose

/-- A file tree, seen from one of its directories. -/
structure Workspace where
  files : FileTree
  here : Location

namespace Workspace

/-! ### Questions -/

/-- The path of the directory in which one stands. -/
def herePath (w : Workspace) : String := "/" ++ Text.join "/" w.here

/-- Where a path leads. A link at its end is followed when `last` holds. -/
def place (w : Workspace) (path : String) (last : Bool) : Except FileError Place :=
  if path.toList.contains '\x00' then .error .nulInPath
  else if path = "" then .error .notFound
  else if Path.lengthLimit < path.utf8ByteSize then .error .nameTooLong
  else
    let start := if Path.isAbsolute path then [] else w.here
    w.files.walk last FileTree.linkLimit start (Path.pieces path)

/-- What a path leads to. -/
def entryAt (w : Workspace) (path : String) : Except FileError Entry :=
  match w.place path true with
  | .ok (.present _ entry) => .ok entry
  | .ok (.absent _) => .error .notFound
  | .error e => .error e

/-- Whether a path leads to something. -/
def exists? (w : Workspace) (path : String) : Bool := (w.entryAt path).isOk

/-- Whether a path leads to a file. -/
def isFile (w : Workspace) (path : String) : Bool :=
  match w.entryAt path with
  | .ok (.file ..) => true
  | _ => false

/-- Whether a path leads to a directory. -/
def isDirectory (w : Workspace) (path : String) : Bool :=
  match w.entryAt path with
  | .ok .directory => true
  | _ => false

/-- The bytes of a file. -/
def read (w : Workspace) (path : String) : Except FileError ByteArray :=
  match w.entryAt path with
  | .ok (.file content _) => .ok content
  | .ok _ => .error .isDirectory
  | .error e => .error e

/-- The text of a file. -/
def readText (w : Workspace) (path : String) : Except FileError String :=
  match w.read path with
  | .ok content =>
    match String.fromUTF8? content with
    | some text => .ok text
    | none => .error .notText
  | .error e => .error e

/-- The entries of a directory in the order of their names. -/
def list (w : Workspace) (path : String) : List (String × Entry) :=
  match w.place path true with
  | .ok (.present location .directory) =>
    (w.files.children location).mergeSort fun a b => decide (a.1 ≤ b.1)
  | _ => []

/-! ### Changes -/

/-- Puts an entry at a location. -/
def put (w : Workspace) (location : Location) (entry : Entry) : Workspace :=
  { w with files := w.files.put location entry }

/-- Gives a file its bytes; a file that is not there is made. A path that ends in a slash is no
file.
-/
def write (w : Workspace) (path : String) (content : ByteArray) : Except FileError Workspace :=
  match w.place (Path.withoutEndSlashes path) true with
  | .error e => .error e
  | .ok place =>
    if Path.endsInSlash path then .error .isDirectory
    else
      match place with
      | .present location (.file _ executable) =>
        .ok (w.put location (.file content executable))
      | .present _ _ => .error .isDirectory
      | .absent location => .ok (w.put location (.file content false))

/-- The bytes of the file at a location, none when there is no file. -/
def bytesAt (w : Workspace) (location : Location) : ByteArray :=
  match w.files.look? location with
  | some (.file content _) => content
  | _ => .empty

/-- Copies a file. The target is emptied before the source is read, so that a file copied to itself
ends up empty. -/
def copy (w : Workspace) (source target : String) : Except FileError Workspace :=
  match w.place source true with
  | .error e => .error e
  | .ok (.absent _) => .error .notFound
  | .ok (.present fromLocation (.file _ executable)) =>
    let onto (location : Location) : Workspace :=
      let emptied := w.put location (.file .empty executable)
      emptied.put location (.file (emptied.bytesAt fromLocation) executable)
    match w.place target true with
    | .error e => .error e
    | .ok (.absent location) => .ok (onto location)
    | .ok (.present location (.file ..)) => .ok (onto location)
    | .ok (.present _ _) => .error .isDirectory
  | .ok (.present _ _) => .error .notRegular

/-- Makes a directory. Slashes behind its name do not matter, so that a link there counts as taken;
they count towards the length of the path.
-/
def makeDirectory (w : Workspace) (path : String) : Except FileError Workspace :=
  if path.toList.contains '\x00' then .error .nulInPath
  else if Path.lengthLimit < path.utf8ByteSize then .error .nameTooLong
  else
    match w.place (Path.withoutEndSlashes path) false with
    | .ok (.absent location) => .ok (w.put location .directory)
    | .ok (.present _ _) => .error .alreadyExists
    | .error e => .error e

/-- Takes a file or a link away. -/
def delete (w : Workspace) (path : String) : Except FileError Workspace :=
  match w.place path false with
  | .ok (.present _ .directory) => .error .isDirectory
  | .ok (.present location _) => .ok { w with files := w.files.remove location }
  | .ok (.absent _) => .error .notFound
  | .error e => .error e

/-- Gives a file another path. A file or a link that is there gives way. -/
def move (w : Workspace) (source target : String) : Except FileError Workspace :=
  match w.place source false, w.place target false with
  | .error e, _ => .error e
  | .ok (.absent _), _ => .error .notFound
  | .ok (.present _ _), .error e => .error e
  | .ok (.present _ _), .ok (.present _ .directory) => .error .isDirectory
  | .ok (.present fromLocation entry), .ok (.present location _)
  | .ok (.present fromLocation entry), .ok (.absent location) =>
    .ok { w with files := (w.files.remove fromLocation).put location entry }

end Workspace

/-- A sequence of questions and changes that may fail. -/
abbrev Action (ε α : Type) := ExceptT ε (StateM Workspace) α

namespace Action

variable {ε α : Type}

/-- The answer to a question about the workspace. -/
def ask (question : Workspace → Except ε α) : Action ε α := fun w => (question w, w)

/-- A change of the workspace; one that fails changes nothing. -/
def change (step : Workspace → Except ε Workspace) : Action ε Unit := fun w =>
  match step w with
  | .ok next => (.ok (), next)
  | .error e => (.error e, w)

end Action

namespace Workspace

/-- Makes a directory unless it is there. -/
def ensureDirectory (path : String) : Action FileError Unit :=
  Action.change fun w =>
    match w.makeDirectory path with
    | .error .alreadyExists => if w.isDirectory path then .ok w else .error .alreadyExists
    | result => result

/-- A path and the directories above it, from the inside out, each given by the path less pieces. -/
def ancestors (path : String) : List String := go path.length path
where
  /-- At most `n` of them. -/
  go : Nat → String → List String
    | 0, _ => []
    | n + 1, path =>
      match Path.parent? path with
      | none => []
      | some above => if path = "" then [] else path :: go n above

/-- Makes the directories that miss, from the outside in: `paths` are tried from the inside out
until one of them is there or can be made, and `missing` are those within. -/
def makeMissing (missing : List String) : List String → Action FileError Unit
  | [] => missing.forM ensureDirectory
  | path :: above => fun w =>
    match ensureDirectory path w with
    | (.error .notFound, w) => makeMissing (path :: missing) above w
    | (.error e, w) => (.error e, w)
    | (.ok (), w) => (missing.forM ensureDirectory : Action FileError Unit) w

/-- Makes a directory and those above it, unless they are there. -/
def makeDirectories (path : String) : Action FileError Unit := makeMissing [] (ancestors path)

end Workspace

end KubeCompose
