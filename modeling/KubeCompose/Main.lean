import KubeCompose.CommandLine.Run
import KubeCompose.Script.Run

/-!
# The program

The working directory and what lies below it are read into a workspace, the command runs there, and
what it changed is written back. Programs that the command calls are scripts of the workspace.
-/

namespace KubeCompose.Program

/-- The location that a path names. -/
def locationOf (path : String) : Location :=
  (Path.pieces path).filter fun piece => !Path.isIdle piece

/-- A tree of the directories on the way to a location. -/
def wayTo (location : Location) : FileTree :=
  (List.range location.length).foldl
    (fun tree n => tree.put (location.take (n + 1)) .directory) []

/-- Whether bytes begin as a script does. -/
def isScript (content : ByteArray) : Bool := content.toList.take 2 == "#!".toUTF8.toList

/-- Reads an entry of a directory and all below it. A link is kept with the path to which it leads.
-/
partial def readEntry (above : Location) (tree : FileTree) (entry : IO.FS.DirEntry) :
    IO FileTree := do
  let location := above ++ [entry.fileName]
  match (← entry.path.symlinkMetadata).type with
  | .dir => do
    let mut tree := tree.put location .directory
    for e in ← entry.path.readDir do
      tree ← readEntry location tree e
    return tree
  | .symlink => do
    let target ← try IO.FS.realPath entry.path catch _ => pure entry.path
    return tree.put location (.link target.toString)
  | _ => do
    let content ← IO.FS.readBinFile entry.path
    return tree.put location (.file content (isScript content))

/-- The workspace of the working directory. -/
def readWorkspace : IO Workspace := do
  let directory ← IO.currentDir
  let here := locationOf directory.toString
  let mut tree := wayTo here
  for entry in ← directory.readDir do
    tree ← readEntry here tree entry
  return ⟨tree, here⟩

/-- The path of a location. -/
def pathOf (location : Location) : String := "/" ++ Text.join "/" location

/-- Writes what stands at a location. -/
def writeEntry (location : Location) : Entry → IO Unit
  | .directory => IO.FS.createDirAll (pathOf location)
  | .file content _ => IO.FS.writeBinFile (pathOf location) content
  | .link _ => return

/-- Writes back what is new, and takes away what is gone. -/
def writeChanges (before after : Workspace) : IO Unit := do
  for (location, _) in before.files do
    if (after.files.look? location).isNone then IO.FS.removeFile (pathOf location)
  for (location, entry) in after.files do
    if before.files.look? location != some entry then writeEntry location entry

/-- The names of the variables that a command looks at. -/
def variableNames : List String :=
  ["REGISTRY_HOST", "REGISTRY_PORT", "REGISTRY_PATH", "REGISTRY_INSECURE", "REGISTRY_USERNAME",
   "REGISTRY_PASSWORD", "K8S_NAMESPACE", "K8S_CONTEXT", "K8S_INSECURE_SKIP_TLS_VERIFY",
   "K8S_CLUSTER_TYPE", "DEFAULT_CPU_REQUEST", "DEFAULT_MEMORY_REQUEST", "DEFAULT_CPU_LIMIT",
   "DEFAULT_MEMORY_LIMIT", "DB_CPU_REQUEST", "DB_MEMORY_REQUEST", "DB_CPU_LIMIT",
   "DB_MEMORY_LIMIT", "DB_SERVICE_TYPES", "KOMPOSE_BIN", Settings.fileVariable]

/-- The variables of the environment. -/
def readVariables : IO Variables := do
  let values ← variableNames.filterMapM fun name => do
    return (← IO.getEnv name).map fun value => (name, value)
  return fun name => values.lookup name

/-- The directories in which programs are looked for. -/
def readSearchPath : IO (List String) := do
  let text := (← IO.getEnv "PATH").getD ""
  return (Text.splitOn ':' text.toList).map String.ofList

end KubeCompose.Program

open KubeCompose KubeCompose.Program

/-- Runs the command that the arguments describe. -/
def main (arguments : List String) : IO UInt32 := do
  let workspace ← readWorkspace
  let surroundings : CommandLine.Surroundings :=
    ⟨← readVariables, Script.launcher (← readSearchPath)⟩
  let (outcome, after) := CommandLine.run surroundings arguments workspace
  writeChanges workspace after
  IO.print outcome.output
  if let some error := outcome.error then
    IO.eprintln (error.failureClass.code ++ ": " ++ error.message)
    if let some help := error.help? then IO.eprintln ("help: " ++ help)
  return outcome.status.toUInt32
