import KubeCompose.Manifest.Revise
import KubeCompose.Workspace

/-!
# Revising a directory of manifests

Every manifest of a directory is revised in the order of the names, and those whose names hold
underscores get names with dashes afterwards. What goes wrong with one file is noted and does not
stop the others. A file that cannot be read or written keeps its name and its bytes, and no file is
renamed onto another.
-/

namespace KubeCompose.Manifest

/-- What is asked of a revision. -/
structure Revision where
  «namespace» : Option String
  registry : Option String
  daemonServices : List String
  deriving DecidableEq, Repr

/-- What goes wrong with a file. -/
inductive Problem where
  | unreadable (cause : FileError)
  | notDocuments (cause : Yaml.ReadError)
  | notWritable (cause : Yaml.WriteError)
  | unwritable (cause : FileError)
  | notDeleted (cause : FileError)
  | nameTaken (target : String)
  | notRenamed (cause : FileError)
  deriving DecidableEq, Repr

/-- The wording of a problem. -/
def Problem.message : Problem → String
  | .unreadable cause => "cannot read manifest: " ++ cause.message
  | .notDocuments cause => "cannot parse manifest: YAML error: " ++ cause.message
  | .notWritable cause => "cannot render manifest: YAML error: " ++ cause.message
  | .unwritable cause => "cannot write manifest: " ++ cause.message
  | .notDeleted cause => "cannot remove converted deployment: " ++ cause.message
  | .nameTaken target => "not renamed, " ++ target ++ " already exists"
  | .notRenamed cause => "cannot rename: " ++ cause.message

/-- What a revision did. -/
structure RevisionReport where
  revised : Nat
  moved : Nat
  daemonSets : List String
  renamed : List (String × String)
  problems : List (String × Problem)
  deriving DecidableEq, Repr

namespace RevisionReport

/-- The report at the start. -/
def empty : RevisionReport := ⟨0, 0, [], [], []⟩

/-- Notes a problem with a file. -/
def note (r : RevisionReport) (path : String) (problem : Problem) : RevisionReport :=
  { r with problems := r.problems ++ [(path, problem)] }

end RevisionReport

/-- Whether a path has the name of a manifest. -/
def isManifestName (path : String) : Bool :=
  Path.extension? path == some "yaml" || Path.extension? path == some "yml"

/-- The manifests of a directory in the order of their names: its own files, neither links nor
directories. -/
def filesIn (w : Workspace) (directory : String) : List String :=
  (w.list directory).filterMap fun (name, entry) =>
    match entry with
    | .file .. =>
      let path := Path.child directory name
      if isManifestName path then some path else none
    | _ => none

namespace Revision

/-- A document with its namespace set. -/
def placed (o : Revision) (document : Yaml) : Yaml :=
  match o.namespace with
  | some name => Revise.setNamespace name document
  | none => document

/-- How many images of a document move. -/
def movedIn (o : Revision) (document : Yaml) : Nat :=
  match o.registry with
  | some registry => Revise.movedCount registry (o.placed document)
  | none => 0

/-- A document revised. -/
def revised (o : Revision) (document : Yaml) : Yaml :=
  Revise.dashNames <|
    match o.registry with
    | some registry => Revise.moveImages registry (o.placed document)
    | none => o.placed document

/-- Whether a service is to run on every node. -/
def isDaemon (o : Revision) (stem : String) : Bool :=
  let names := o.daemonServices.flatMap fun name => [name, Name.normalize name]
  names.contains stem || names.contains (Name.normalize stem)

/-- The path of the daemon set that takes the place of a deployment, when its service is to run on
every node. -/
def daemonPath? (o : Revision) (path : String) : Option String :=
  match (Path.fileName? path).bind fun name =>
    Text.dropEnd? "-deployment.yaml".toList name.toList with
  | none => none
  | some stem =>
    let stem := String.ofList stem
    if o.isDaemon stem then some (Path.withFileName path (stem ++ "-daemonset.yaml")) else none

/-- Writes the documents of a file to `target`, and takes the file away when that is another one. -/
def store (path : String) (target : Option String) (text : String) (w : Workspace)
    (r : RevisionReport) : Workspace × RevisionReport :=
  let destination := target.getD path
  match w.write destination text.toUTF8 with
  | .error e => (w, r.note destination (.unwritable e))
  | .ok w =>
    let r := { r with revised := r.revised + 1 }
    match target with
    | none => (w, r)
    | some target =>
      let (w, r) :=
        match w.delete path with
        | .ok w => (w, r)
        | .error e => (w, r.note path (.notDeleted e))
      (w, { r with daemonSets := r.daemonSets ++ [target] })

/-- Revises a file. -/
def reviseFile (o : Revision) (state : Workspace × RevisionReport) (path : String) :
    Workspace × RevisionReport :=
  let (w, r) := state
  match w.readText path with
  | .error e => (w, r.note path (.unreadable e))
  | .ok text =>
    match parseDocuments text with
    | .error e => (w, r.note path (.notDocuments e))
    | .ok documents =>
      let r := { r with moved := r.moved + (documents.map o.movedIn).foldl (· + ·) 0 }
      let target := o.daemonPath? path
      let documents := documents.map o.revised
      let documents := if target.isSome then documents.map Revise.toDaemonSet else documents
      match writeDocuments documents with
      | .error e => (w, r.note path (.notWritable e))
      | .ok text => store path target text w r

/-- Gives a file whose name holds underscores a name with dashes, unless that name is taken. -/
def renameFile (state : Workspace × RevisionReport) (path : String) : Workspace × RevisionReport :=
  let (w, r) := state
  match Path.fileName? path with
  | none => (w, r)
  | some name =>
    if name.toList.contains '_' then
      let target := Path.withFileName path (Revise.dashed name)
      if w.exists? target then (w, r.note path (.nameTaken target))
      else
        match w.move path target with
        | .ok w => (w, { r with renamed := r.renamed ++ [(path, target)] })
        | .error e => (w, r.note path (.notRenamed e))
    else (w, r)

/-- Revises the manifests of a directory. -/
def run (o : Revision) (directory : String) (w : Workspace) : Workspace × RevisionReport :=
  let revised := (filesIn w directory).foldl o.reviseFile (w, .empty)
  (filesIn revised.1 directory).foldl renameFile revised

end Revision

end KubeCompose.Manifest
