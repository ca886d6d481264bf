import KubeCompose.CommandLine.Arguments
import KubeCompose.CommandLine.Summary
import KubeCompose.Engine.Docker
import KubeCompose.Settings.Environment
import KubeCompose.Tool.Manifests

/-!
# Running a command

A command runs in a session: a workspace, and what has been written to the output so far. It ends
with a status, which tells the causes of a failure apart.
-/

namespace KubeCompose.CommandLine

/-- Why a command fails. -/
inductive CommandError where
  | settings (cause : SettingsError)
  | project (cause : Compose.LoadError)
  | conversion (cause : ConversionError)
  | tool (cause : ToolError)
  | imagesWithoutRegistry
  | noRegistry
  | noManifests (directory : String)
  | imagesFailed (failed total : Nat)
  | manifestsRefused (refused total : Nat)
  deriving Repr

/-- A class of failures. -/
inductive FailureClass where
  | input
  | usage
  | tool
  | push
  | validate
  | io
  | internal
  deriving DecidableEq, Repr

namespace FailureClass

/-- The name of a class. -/
def code : FailureClass → String
  | .input => "berth::cli::input"
  | .usage => "berth::cli::usage"
  | .tool => "berth::cli::tool"
  | .push => "berth::cli::push"
  | .validate => "berth::cli::validate"
  | .io => "berth::cli::io"
  | .internal => "berth::cli::internal"

/-- The status with which a command of a class of failures ends. -/
def status : FailureClass → Nat
  | .internal => 1
  | .input => 2
  | .tool | .push | .validate => 3
  | .io => 5
  | .usage => 64

end FailureClass

namespace CommandError

/-- The class of an error. -/
def failureClass : CommandError → FailureClass
  | .settings (.unreadableFile _) | .project (.unreadable _) | .conversion (.file _)
  | .tool (.file _) => .io
  | .settings _ | .project _ | .noManifests _ => .input
  | .conversion (.notWritable _) => .internal
  | .conversion _ => .input
  | .tool _ => .tool
  | .imagesWithoutRegistry | .noRegistry => .usage
  | .imagesFailed .. => .push
  | .manifestsRefused .. => .validate

/-- The wording of an error. -/
def message : CommandError → String
  | .settings cause => cause.message
  | .project cause => cause.message
  | .conversion (.notWritable cause) => "Internal error: " ++ cause.message
  | .conversion cause => cause.message
  | .tool cause => cause.message
  | .imagesWithoutRegistry => "--push-images needs a registry"
  | .noRegistry => "no registry to push to"
  | .noManifests directory => "Manifest directory not found: " ++ directory
  | .imagesFailed failed total =>
    Number.decimal failed ++ " of " ++ Number.decimal total ++
      " image(s) failed to build or push"
  | .manifestsRefused refused total =>
    Number.decimal refused ++ " of " ++ Number.decimal total ++ " manifest(s) failed validation"

/-- What one can do about an error. -/
def help? : CommandError → Option String
  | .project (.notFound _) =>
    some "pass a compose file or a directory containing docker-compose.yml"
  | .conversion (.name (.conflict ..)) =>
    some "rename one of the services so their Kubernetes names differ"
  | .tool (.notFound program) =>
    some ("install " ++ program ++ " or point the config at its binary")
  | .tool (.overdue ..) => some "raise the limit with --timeout"
  | .imagesWithoutRegistry =>
    some "pass --registry, set REGISTRY_HOST or add registry.host to the config file"
  | .noRegistry => some "pass --registry or set REGISTRY_HOST"
  | .imagesFailed .. =>
    some "manifests were written; rerun `berth push` once the failures are fixed"
  | _ => none

end CommandError

/-- The workspace and the output so far. -/
structure Session where
  workspace : Workspace
  output : String

/-- A part of a command. -/
abbrev Part (α : Type) := ExceptT CommandError (StateM Session) α

namespace Part

variable {α : Type}

/-- A question about the workspace. -/
def ask (question : Workspace → Except CommandError α) : Part α := fun s =>
  (question s.workspace, s)

/-- Something done in the workspace. -/
def act {ε : Type} (wrap : ε → CommandError) (action : Workspace → Except ε α × Workspace) :
    Part α := fun s =>
  let (result, w) := action s.workspace
  (result.mapError wrap, { s with workspace := w })

/-- Writes a text to the output. -/
def say (text : String) : Part Unit := modify fun s => { s with output := s.output ++ text }

end Part

namespace ConvertArguments

/-- What is told of a conversion before it begins. -/
def title (a : ConvertArguments) : String :=
  if a.useKompose then "Compose → Kubernetes (kompose)" else "Compose → Kubernetes"

/-- The options of a conversion; the namespace is that of the settings unless one is given. -/
def options (a : ConvertArguments) (s : Settings) : ConvertOptions :=
  { «namespace» := a.namespace.getD s.cluster.namespace
    registry := s.pullRegistry?
    tag := a.tag
    daemonServices := a.daemonServices }

end ConvertArguments

/-- What a command sees besides the workspace. -/
structure Surroundings where
  environment : Variables
  launch : Launcher Workspace

namespace Surroundings

/-- The settings of a command that names a file and a registry. -/
def settings (e : Surroundings) (config registry : Option String) : Part Settings := do
  let s ← Part.ask fun w => (Settings.load w e.environment config).mapError .settings
  return match registry with
  | some url => s.withRegistryUrl url
  | none => s

/-- The limit of a number of seconds. -/
def limitOf (seconds : Nat) : Limit := seconds * 1000

/-- Pushes the images of a project. -/
def push (e : Surroundings) (s : Settings) (p : Compose.Project) (registry tag : String)
    (skipBuild : Bool) (seconds : Nat) : Part PushReport :=
  let engine :=
    Docker.engine e.launch (fun path w => w.isFile path) (limitOf seconds) s.programs.docker
  Part.act .tool (engine.push ⟨registry, tag, skipBuild, s.registry.credentials?⟩ p)

/-- Calls kompose for a project. -/
def callKompose (e : Surroundings) (s : Settings) (p : Compose.Project) (a : ConvertArguments)
    (w : Workspace) : Except ToolError ToolOutput × Workspace :=
  Kompose.convert e.launch (limitOf a.seconds) s.programs.kompose w.herePath p.path a.directory w

/-- Converts a project with kompose. -/
def convertByKompose (e : Surroundings) (s : Settings) (o : ConvertOptions) (p : Compose.Project)
    (a : ConvertArguments) : Part ConversionReport := do
  let name ← Part.ask fun _ => (Name.ofText o.namespace).mapError fun e => .conversion (.name e)
  Part.act .conversion (prepareDirectory a.directory)
  let copied ← Part.act .conversion (copyVariables p a.directory)
  let _ ← Part.act .tool (e.callKompose s p a)
  let revision ← Part.act .conversion ((o.revision name).revise a.directory)
  let written ← Part.ask fun w => .ok (Manifest.filesIn w a.directory)
  return {
    «namespace» := name
    directory := a.directory
    written := written
    copied := copied.toList
    services := []
    revision := revision }

/-- What kubectl says about the manifests of a directory. -/
def verdicts (e : Surroundings) (k : Kubectl) (seconds : Nat) (directory : String) :
    Part (List Verdict) :=
  Part.act .tool (k.validate e.launch (limitOf seconds) fun w => Manifest.filesIn w directory)

/-- Fails when images could not be pushed. -/
def checkPushed (r : PushReport) : Part Unit := do
  if !r.isSuccess then throw (.imagesFailed r.failed r.services.length)

/-- What a conversion begins with: the settings and the project. -/
def enter (e : Surroundings) (config : Option String) (a : ConvertArguments) :
    Part (Settings × Compose.Project) := do
  let s ← e.settings config a.registry
  Part.ask fun _ =>
    if a.pushImages && s.pushRegistry?.isNone then .error .imagesWithoutRegistry else .ok ()
  let p ← Part.ask fun w => (Compose.Project.load w a.project).mapError .project
  Part.say (if a.json then "" else Summary.header a.title p.path a.directory)
  return (s, p)

/-- Converts a project in the way that is asked for. -/
def makeManifests (e : Surroundings) (s : Settings) (p : Compose.Project) (a : ConvertArguments) :
    Part ConversionReport :=
  if a.useKompose then e.convertByKompose s (a.options s) p a
  else Part.act .conversion (KubeCompose.convert s (a.options s) p a.directory)

/-- Pushes the images of a project that was converted, when that is asked. -/
def imagesOf (e : Surroundings) (s : Settings) (p : Compose.Project) (a : ConvertArguments) :
    Part (Option PushReport) :=
  match s.pushRegistry? with
  | some registry =>
    if a.pushImages then some <$> e.push s p registry a.tag a.skipBuild a.seconds else pure none
  | none => pure none

/-- Validates the manifests of a project that was converted, when that is asked. A validation that
cannot take place is left out. -/
def validationOf (e : Surroundings) (s : Settings) (a : ConvertArguments) :
    Part (Option (List Verdict)) :=
  if a.validate then
    try some <$> e.verdicts (.ofSettings s) a.seconds a.directory catch _ => pure none
  else pure none

/-- What is told of a conversion at its end. -/
def closing (a : ConvertArguments) (conversion : ConversionReport) (images : Option PushReport)
    (validation : Option (List Verdict)) : String :=
  if a.json then
    (Report.record <|
      [("tool", .text (if a.useKompose then "kompose" else "native")),
       ("conversion", conversion.report)] ++
      (images.map fun r => ("images", r.report)).toList ++
      (validation.map fun v => ("validation", validationReport v)).toList).line
  else
    Summary.conversion conversion ++ (images.map Summary.push).getD "" ++
      (validation.map Summary.validation).getD ""

/-- What follows on a conversion. -/
def conclude (e : Surroundings) (s : Settings) (p : Compose.Project) (a : ConvertArguments)
    (conversion : ConversionReport) : Part Unit := do
  let images ← e.imagesOf s p a
  let validation ← e.validationOf s a
  Part.say (closing a conversion images validation)
  match images with
  | some r => checkPushed r
  | none => return

/-- Converts a project, and pushes its images and validates its manifests when that is asked. -/
def convert (e : Surroundings) (config : Option String) (a : ConvertArguments) : Part Unit := do
  let (s, p) ← e.enter config a
  let conversion ← e.makeManifests s p a
  e.conclude s p a conversion

/-- Pushes the images of a project. -/
def pushCommand (e : Surroundings) (config : Option String) (a : PushArguments) : Part Unit := do
  let s ← e.settings config a.registry
  match s.pushRegistry? with
  | none => throw .noRegistry
  | some registry =>
    let p ← Part.ask fun w => (Compose.Project.load w a.project).mapError .project
    Part.say (if a.json then "" else Summary.header "Image push" p.path registry)
    let r ← e.push s p registry a.tag a.skipBuild a.seconds
    Part.say (if a.json then r.report.line else Summary.push r)
    checkPushed r

/-- Validates the manifests of a directory. -/
def validateCommand (e : Surroundings) (config : Option String) (a : ValidateArguments) :
    Part Unit := do
  Part.ask fun w => if w.isDirectory a.directory then .ok () else .error (.noManifests a.directory)
  let s ← e.settings config none
  let verdicts ← e.verdicts ((Kubectl.ofSettings s).withContext a.context) a.seconds a.directory
  Part.say (Summary.validation verdicts)
  let refused := verdicts.countP fun v => !v.isValid
  if refused != 0 then throw (.manifestsRefused refused verdicts.length)

/-- Does what is requested. -/
def perform (e : Surroundings) (r : Request) : Part Unit :=
  match r.command with
  | .convert a => e.convert r.config a
  | .push a => e.pushCommand r.config a
  | .validate a => e.validateCommand r.config a

end Surroundings

/-- The end of a run: the status, what was written to the output, and why it failed, if it did. -/
structure Outcome where
  status : Nat
  output : String
  error : Option CommandError
  deriving Repr

/-- The name of the program with its version. -/
def versionText (command : Option String) : String :=
  "berth" ++ ((command.map ("-" ++ ·)).getD "") ++ " 0.1.0\n"

/-- How arguments end a run that are no request. -/
def ArgumentsEnd.outcome : ArgumentsEnd → Outcome
  | .help => ⟨0, "", none⟩
  | .version command => ⟨0, versionText command, none⟩
  | .usage => ⟨FailureClass.usage.status, "", none⟩

/-- Runs the command that the arguments describe. -/
def run (e : Surroundings) (arguments : List String) (w : Workspace) : Outcome × Workspace :=
  match Request.ofArguments arguments with
  | .error stop => (stop.outcome, w)
  | .ok request =>
    match e.perform request ⟨w, ""⟩ with
    | (.ok (), s) => (⟨0, s.output, none⟩, s.workspace)
    | (.error error, s) => (⟨error.failureClass.status, s.output, some error⟩, s.workspace)

end KubeCompose.CommandLine
