import KubeCompose.Compose.Project
import KubeCompose.Engine.Basic
import KubeCompose.Plan

/-!
# Pushing the images of a project

The services are taken in order. A service with a build section has its image built and pushed, one
with an image of another registry has it fetched where it is not there, named anew and pushed. What
goes wrong with one service does not stop the others; only a login that fails does.
-/

namespace KubeCompose

open Compose (Project Service)

/-- What is asked of a push. -/
structure PushOptions where
  registry : String
  tag : String
  skipBuild : Bool
  credentials : Option (String × String)
  deriving DecidableEq, Repr

/-- Why nothing is done for a service. -/
inductive SkipReason where
  | buildSkipped
  | alreadyThere
  | nothingToPush
  deriving DecidableEq, Repr

/-- The wording of a reason. -/
def SkipReason.message : SkipReason → String
  | .buildSkipped => "build skipped"
  | .alreadyThere => "already in registry"
  | .nothingToPush => "no image or build"

/-- What became of the image of a service. -/
inductive PushOutcome where
  | pushed (image : String)
  | skipped (reason : SkipReason)
  | failed (cause : ToolError)
  deriving DecidableEq, Repr

namespace PushOutcome

/-- Whether an image was pushed. -/
def isPushed : PushOutcome → Bool
  | .pushed _ => true
  | _ => false

/-- Whether nothing was done. -/
def isSkipped : PushOutcome → Bool
  | .skipped _ => true
  | _ => false

/-- Whether something failed. -/
def isFailed : PushOutcome → Bool
  | .failed _ => true
  | _ => false

end PushOutcome

/-- The outcome of each service, in order. -/
structure PushReport where
  registry : String
  services : List (String × PushOutcome)
  deriving DecidableEq, Repr

namespace PushReport

/-- How many outcomes satisfy `p`. -/
def count (r : PushReport) (p : PushOutcome → Bool) : Nat := r.services.countP fun s => p s.2

/-- How many images were pushed. -/
def pushed (r : PushReport) : Nat := r.count PushOutcome.isPushed

/-- For how many services nothing was done. -/
def skipped (r : PushReport) : Nat := r.count PushOutcome.isSkipped

/-- For how many services something failed. -/
def failed (r : PushReport) : Nat := r.count PushOutcome.isFailed

/-- Whether nothing failed. -/
def isSuccess (r : PushReport) : Bool := r.failed == 0

end PushReport

/-- The server of a registry address, to which one logs in: the address without scheme and path. -/
def registryServer (address : String) : String :=
  let cs := Text.dropStarts "http://".toList (Text.dropStarts "https://".toList address.toList)
  String.ofList (Text.before '/' cs)

namespace PushOptions

/-- The name under which the image of a service is pushed. -/
def targetImage (o : PushOptions) (s : Service) : String :=
  Image.inRegistry (s.effectiveImage o.tag) o.registry

/-- Whether the registry holds an image. -/
def holds (o : PushOptions) (image : String) : Bool :=
  (Image.registryRoot o.registry.toList ++ ['/']).isPrefixOf image.toList

end PushOptions

namespace Engine

variable {σ : Type}

/-- Calls of an engine, one after the other, up to the first that fails. -/
abbrev Calls (σ α : Type) := ExceptT ToolError (StateM σ) α

/-- A call of the engine. -/
def ask (e : Engine σ) (c : EngineCall) : Calls σ Bool := e.call c

/-- Builds the image of a service and pushes it. -/
def buildAndPush (e : Engine σ) (o : PushOptions) (p : Project) (s : Service) (b : Compose.Build) :
    Calls σ String := do
  let context := Path.child p.directory b.context
  let dockerfile := Path.child context b.dockerfile
  if !e.isFile dockerfile (← get) then throw (.missingDockerfile dockerfile)
  let target := o.targetImage s
  discard <| e.ask (.build target dockerfile context)
  discard <| e.ask (.push target)
  return target

/-- Gives an image its name in the registry and pushes it. -/
def renameAndPush (e : Engine σ) (o : PushOptions) (s : Service) (image : String) :
    Calls σ String := do
  let isThere ← e.ask (.inspect image)
  if !isThere then discard <| e.ask (.pull image)
  let target := o.targetImage s
  discard <| e.ask (.tag image target)
  discard <| e.ask (.push target)
  return target

/-- The outcome of calls that end in the name of a pushed image. -/
def outcome (calls : Calls σ String) (s : σ) : PushOutcome × σ :=
  match calls s with
  | (.ok image, s) => (.pushed image, s)
  | (.error e, s) => (.failed e, s)

/-- Does for a service what is to be done. -/
def pushService (e : Engine σ) (o : PushOptions) (p : Project) (service : Service) (s : σ) :
    PushOutcome × σ :=
  match service.build with
  | some b =>
    if o.skipBuild then (.skipped .buildSkipped, s) else outcome (e.buildAndPush o p service b) s
  | none =>
    match service.image.filter (· != "") with
    | some image =>
      if o.holds image then (.skipped .alreadyThere, s)
      else outcome (e.renameAndPush o service image) s
    | none => (.skipped .nothingToPush, s)

/-- Does for each of the services what is to be done. -/
def pushServices (e : Engine σ) (o : PushOptions) (p : Project) :
    List Service → σ → List (String × PushOutcome) × σ
  | [], s => ([], s)
  | service :: rest, s =>
    let (outcome, s) := e.pushService o p service s
    let (outcomes, s) := pushServices e o p rest s
    ((service.name, outcome) :: outcomes, s)

/-- Pushes the images of a project. With credentials one logs in before and out afterwards, whatever
becomes of the services. -/
def push (e : Engine σ) (o : PushOptions) (p : Project) (s : σ) :
    Except ToolError PushReport × σ :=
  let server := registryServer o.registry
  let services := p.services.map (·.2)
  match o.credentials with
  | none =>
    let (outcomes, s) := e.pushServices o p services s
    (.ok ⟨o.registry, outcomes⟩, s)
  | some (user, password) =>
    match e.call (.login server user password) s with
    | (.error error, s) => (.error error, s)
    | (.ok _, s) =>
      let (outcomes, s) := e.pushServices o p services s
      let (_, s) := e.call (.logout server) s
      (.ok ⟨o.registry, outcomes⟩, s)

end Engine

end KubeCompose
