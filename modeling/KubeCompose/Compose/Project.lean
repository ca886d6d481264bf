import KubeCompose.Compose.Decode
import KubeCompose.Workspace

/-!
# Projects in a workspace

A project is found by its file or by the directory that holds it. The variables that its texts refer
to stand in the file `.env` beside it.
-/

namespace KubeCompose.Compose

/-- The services of a project file. -/
structure Project where
  path : String
  services : OrderedMap String Service
  deriving Repr

/-- Why a project cannot be loaded. -/
inductive LoadError where
  | notFound (path : String)
  | unreadable (cause : FileError)
  | bad (cause : ProjectError)
  deriving Repr

/-- The wording of an error. -/
def LoadError.message : LoadError → String
  | .notFound path => "Compose file not found: " ++ path
  | .unreadable cause => "IO error: " ++ cause.message
  | .bad cause => cause.message

/-- The names of a project file, the most preferred first. -/
def fileNames : List String :=
  ["docker-compose.yml", "docker-compose.yaml", "compose.yaml", "compose.yml"]

/-- The name of the file with the variables of a project. -/
def variablesName : String := ".env"

/-- The project file that a path means: the path itself, or the first of the names in a directory.
-/
def locate (w : Workspace) (path : String) : Except LoadError String :=
  if w.isFile path then .ok path
  else if w.isDirectory path then
    match (fileNames.map (Path.child path)).find? w.isFile with
    | some file => .ok file
    | none => .error (.notFound (Path.child path "docker-compose.yml"))
  else .error (.notFound path)

namespace Project

/-- Loads a project. -/
def load (w : Workspace) (path : String) : Except LoadError Project := do
  let file ← locate w path
  let text ← (w.readText file).mapError .unreadable
  let services ← (parseServices text).mapError .bad
  return ⟨file, services⟩

/-- The directory of a project. -/
def directory (p : Project) : String := (Path.parent? p.path).getD "."

/-- The path of the file with the variables of a project. -/
def variablesPath (p : Project) : String := Path.child p.directory variablesName

/-- The variables of a project; there are none when there is no file. -/
def dotEnv (p : Project) (w : Workspace) : Except FileError DotEnv :=
  if w.exists? p.variablesPath then (w.readText p.variablesPath).map DotEnv.ofText else .ok []

end Project

end KubeCompose.Compose
