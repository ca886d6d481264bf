import KubeCompose.FileTree.Path
import KubeCompose.Settings.Basic
import KubeCompose.Tool.Invocation

/-!
# Tools for manifests

Kompose makes manifests of a project. It runs in the directory of the project file, so that what is
given relative to that file is found; both its paths are absolute.

Kubectl applies each manifest of a directory in a dry run. A manifest that is refused is noted and
does not stop the others; only a kubectl that cannot be asked for its version does.
-/

namespace KubeCompose

/-! ### Conversion by another tool -/

namespace Kompose

/-- The call that converts a project file into a directory, for one who stands in `here`. -/
def invocation (program here projectFile directory : String) : Except FileError Invocation :=
  match Path.absolute? here projectFile, Path.absolute? here directory with
  | some file, some target =>
    .ok
      { program := program
        arguments := ["convert", "-f", file, "-o", target]
        directory := some ((Path.parent? file).getD ".")
        input := none }
  | _, _ => .error .emptyPath

/-- Converts a project file into a directory. -/
def convert {σ : Type} (launch : Launcher σ) (limit : Limit)
    (program here projectFile directory : String) (s : σ) : Except ToolError ToolOutput × σ :=
  match invocation program here projectFile directory with
  | .ok i => launch.run limit i s
  | .error e => (.error (.file e), s)

end Kompose

/-! ### Validation -/

/-- How kubectl is called. -/
structure Kubectl where
  program : String
  context : Option String
  skipTlsVerify : Bool
  deriving DecidableEq, Repr

/-- A manifest and why it is refused, if it is. -/
structure Verdict where
  path : String
  refusal : Option String
  deriving DecidableEq, Repr

/-- Whether a manifest is accepted. -/
def Verdict.isValid (v : Verdict) : Bool := v.refusal.isNone

namespace Kubectl

/-- The call that the settings describe. -/
def ofSettings (s : Settings) : Kubectl :=
  ⟨s.programs.kubectl, s.cluster.context, s.cluster.skipTlsVerify⟩

/-- Uses a context, when one is given. -/
def withContext (k : Kubectl) (context : Option String) : Kubectl :=
  { k with context := context.or k.context }

/-- The options that say which cluster is meant. -/
def clusterOptions (k : Kubectl) : List String :=
  (k.context.map fun c => "--context=" ++ c).toList ++
    if k.skipTlsVerify then ["--insecure-skip-tls-verify"] else []

/-- The call that applies a manifest in a dry run. -/
def dryRun (k : Kubectl) (manifest : String) : Invocation :=
  .of k.program (k.clusterOptions ++ ["apply", "--dry-run=client", "-f", manifest])

variable {σ : Type}

/-- The version of kubectl. -/
def version (k : Kubectl) (launch : Launcher σ) (limit : Limit) (s : σ) :
    Except ToolError String × σ :=
  match launch.run limit (.of k.program ["version", "--client"]) s with
  | (.ok output, s) => (.ok (Text.trimmed output.output), s)
  | (.error e, s) => (.error e, s)

/-- What kubectl says about a manifest. -/
def judge (k : Kubectl) (launch : Launcher σ) (limit : Limit) (manifest : String) (s : σ) :
    Verdict × σ :=
  match launch.run limit (k.dryRun manifest) s with
  | (.ok _, s) => (⟨manifest, none⟩, s)
  | (.error e, s) => (⟨manifest, some (e.errors?.getD e.message)⟩, s)

/-- What kubectl says about manifests, in order. -/
def judgeAll (k : Kubectl) (launch : Launcher σ) (limit : Limit) :
    List String → σ → List Verdict × σ
  | [], s => ([], s)
  | manifest :: rest, s =>
    let (verdict, s) := k.judge launch limit manifest s
    let (verdicts, s) := judgeAll k launch limit rest s
    (verdict :: verdicts, s)

/-- Validates the manifests that there are once the version is known. -/
def validate (k : Kubectl) (launch : Launcher σ) (limit : Limit) (manifests : σ → List String)
    (s : σ) : Except ToolError (List Verdict) × σ :=
  match k.version launch limit s with
  | (.error e, s) => (.error e, s)
  | (.ok _, s) =>
    let (verdicts, s) := k.judgeAll launch limit (manifests s) s
    (.ok verdicts, s)

end Kubectl

end KubeCompose
