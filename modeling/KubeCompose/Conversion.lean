import KubeCompose.Compose.Project
import KubeCompose.Manifest.Directory
import KubeCompose.Plan

/-!
# Conversion

A project becomes a directory of manifests: its plan is made first, then the directory, and in it
the copy of the variables and one file for each manifest; at last the directory is revised. What
goes wrong before the directory is made leaves the workspace as it was.
-/

namespace KubeCompose

open Compose (Project)

/-- Why a conversion fails. -/
inductive ConversionError where
  | name (cause : Name.Error)
  | file (cause : FileError)
  | notWritable (cause : Yaml.WriteError)
  | notDirectory (path : String)
  | directoryNotFound (path : String)
  deriving Repr

/-- The wording of an error. -/
def ConversionError.message : ConversionError → String
  | .name cause => cause.message
  | .file cause => "IO error: " ++ cause.message
  | .notWritable cause => "YAML error: " ++ cause.message
  | .notDirectory path => "Output path is not a directory: " ++ path
  | .directoryNotFound path => "Directory not found: " ++ path

/-- What a conversion did. -/
structure ConversionReport where
  «namespace» : String
  directory : String
  written : List String
  copied : List String
  services : List ServiceReport
  revision : Manifest.RevisionReport
  deriving DecidableEq, Repr

/-- Writes a manifest to its file in a directory. -/
def Manifest.writeTo (m : Manifest) (directory : String) : Action ConversionError String := do
  let path := Path.child directory m.fileName
  let text ← Action.ask fun _ => m.document.write.mapError .notWritable
  Action.change fun w => (w.write path text.toUTF8).mapError .file
  return path

/-- Revises a directory of manifests, which must be there. -/
def Manifest.Revision.revise (o : Revision) (directory : String) :
    Action ConversionError RevisionReport := fun w =>
  if w.isDirectory directory then
    let (w, report) := o.run directory w
    (.ok report, w)
  else (.error (.directoryNotFound directory), w)

/-- Makes the directory for the manifests, unless it is there. -/
def prepareDirectory (directory : String) : Action ConversionError Unit := fun w =>
  if w.exists? directory && !w.isDirectory directory then (.error (.notDirectory directory), w)
  else ExceptT.adapt ConversionError.file (Workspace.makeDirectories directory) w

/-- Copies the variables of a project into a directory, when it has a file of them. -/
def copyVariables (p : Project) (directory : String) : Action ConversionError (Option String) :=
  fun w =>
    if w.isFile p.variablesPath then
      let target := Path.child directory Compose.variablesName
      match w.copy p.variablesPath target with
      | .ok w => (.ok (some target), w)
      | .error e => (.error (.file e), w)
    else (.ok none, w)

namespace ConvertOptions

/-- The revision of what a conversion wrote. -/
def revision (o : ConvertOptions) («namespace» : String) : Manifest.Revision :=
  ⟨some «namespace», o.registry, o.daemonServices⟩

end ConvertOptions

/-- Converts a project into a directory of manifests. -/
def convert (settings : Settings) (options : ConvertOptions) (p : Project) (directory : String) :
    Action ConversionError ConversionReport := do
  let vars ← Action.ask fun w => (p.dotEnv w).mapError .file
  let plan ← Action.ask fun _ => (planOf settings options p.services vars).mapError .name
  prepareDirectory directory
  let copied ← copyVariables p directory
  let written ← plan.manifests.mapM fun m => m.writeTo directory
  let revision ← (options.revision plan.namespace.stem).revise directory
  return {
    «namespace» := plan.namespace.stem
    directory := directory
    written := written
    copied := copied.toList
    services := plan.services.map (·.1)
    revision := revision }

end KubeCompose
