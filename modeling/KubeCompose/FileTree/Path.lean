import KubeCompose.Text.Blank
import KubeCompose.Text.Fields

/-!
# Paths

A path is a text whose pieces are divided by slashes. It is shown as it was given, so that these
functions cut and join the text and leave all else in it as it is.
-/

namespace KubeCompose.Path

open Text (splitOn cutAtLast? dropTrailing join)

/-- The pieces between the slashes of a path. -/
def pieces (path : String) : List String := (splitOn '/' path.toList).map String.ofList

/-- Whether a path begins at the root. -/
def isAbsolute (path : String) : Bool := path.toList.head? == some '/'

/-- A path without the slashes at its end; one of nothing but slashes stays. -/
def withoutEndSlashes (path : String) : String :=
  match dropTrailing (· == '/') path.toList with
  | [] => path
  | cs => String.ofList cs

/-- Whether a path ends in a slash. -/
def endsInSlash (path : String) : Bool := path.toList.getLast? == some '/'

/-- The most bytes of a path. -/
def lengthLimit : Nat := 4095

/-- Whether a piece leads nowhere: it is empty, or names the directory itself. -/
def isIdle (piece : String) : Bool := piece == "" || piece == "."

/-- The most bytes of a piece. -/
def pieceLimit : Nat := 255

/-- The pieces of a path without the idle ones at its end; the first piece stays. -/
def significant (path : String) : List String :=
  match pieces path with
  | [] => []
  | first :: rest => first :: dropTrailing isIdle rest

/-- The path of `name` in the directory `base`. -/
def child (base name : String) : String :=
  if isAbsolute name || base == "" then name
  else if endsInSlash base then base ++ name
  else base ++ "/" ++ name

/-- The path of the directory that holds a path; the root and the empty path have none. -/
def parent? (path : String) : Option String :=
  match significant path with
  | [] => none
  | first :: rest =>
    if rest.isEmpty then
      if isAbsolute path || path == "" then none else some ""
    else
      let above := dropTrailing isIdle rest.dropLast
      if isAbsolute path && above.isEmpty then some "/" else some (join "/" (first :: above))

/-- The last piece of a path, when it is the name of an entry. -/
def fileName? (path : String) : Option String :=
  match (significant path).getLast? with
  | none => none
  | some name => if isIdle name || name == ".." then none else some name

/-- What stands behind the last dot of a name, unless the name begins with that dot. -/
def extension? (path : String) : Option String :=
  match (fileName? path).bind fun name => cutAtLast? '.' name.toList with
  | none | some ([], _) => none
  | some (_, ext) => some (String.ofList ext)

/-- The path with another name in the place of the last piece. -/
def withFileName (path name : String) : String :=
  match fileName? path with
  | some _ => child ((parent? path).getD "") name
  | none => child path name

/-- The path as seen from the root, for one who stands in `base`. Idle pieces go, a slash at the end
and exactly two slashes in front stay; the empty path names nothing. -/
def absolute? (base path : String) : Option String :=
  if path == "" then none
  else
    let names := (pieces path).filter fun piece => !isIdle piece
    let start :=
      match path.toList with
      | '/' :: '/' :: '/' :: _ => "/"
      | '/' :: '/' :: _ => "//"
      | '/' :: _ => "/"
      | _ => base
    let full := names.foldl child start
    if endsInSlash path then some (child full "") else some full

end KubeCompose.Path
