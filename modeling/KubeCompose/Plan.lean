import KubeCompose.Image
import KubeCompose.Manifest.Build

/-!
# The plan of a conversion

All manifests of a project are made before anything is written, so that a bad name stops a
conversion before it has begun.
-/

namespace KubeCompose

open Compose (Service)

/-- What a conversion is asked for. -/
structure ConvertOptions where
  «namespace» : String
  registry : Option String
  tag : String
  daemonServices : List String
  deriving DecidableEq, Repr

/-- What a conversion is asked for when nothing is said. -/
def ConvertOptions.standard : ConvertOptions := ⟨"default", none, Image.defaultTag, []⟩

/-- What became of a service. -/
structure ServiceReport where
  service : String
  name : String
  image : String
  classification : Classification
  files : List String
  deriving DecidableEq, Repr

/-- The manifests of a project. -/
structure Plan where
  «namespace» : Manifest
  services : List (ServiceReport × List Manifest)
  deriving Repr

namespace Plan

/-- The manifests in the order in which they are written. -/
def manifests (p : Plan) : List Manifest := p.namespace :: p.services.flatMap (·.2)

/-- How many manifests there are. -/
def count (p : Plan) : Nat := p.manifests.length

end Plan

/-- The image of a service: the one it names, or its own name with a tag. -/
def Compose.Service.effectiveImage (s : Service) (tag : String) : String :=
  match s.image.filter (· != "") with
  | some image => image
  | none => s.name ++ ":" ++ tag

/-- The image that the pods of a service pull. -/
def ConvertOptions.imageFor (o : ConvertOptions) (s : Service) : String :=
  let image := s.effectiveImage o.tag
  match o.registry with
  | some registry => Image.inRegistry image registry
  | none => image

/-- A service with all that its objects depend on. -/
def workloadOf (settings : Settings) (options : ConvertOptions) (vars : DotEnv)
    (name «namespace» : String) (s : Service) : Workload :=
  let ports := s.portMappings vars
  { service := s
    name := name
    «namespace» := «namespace»
    environment := s.resolvedEnvironment vars
    classification := .ofService s ports
    ports := ports
    limits := settings.limitsFor s.name
    image := options.imageFor s }

/-- The report and the manifests of a service. -/
def planService (w : Workload) : ServiceReport × List Manifest :=
  ({ service := w.service.name
     name := w.name
     image := w.image
     classification := w.classification
     files := w.manifests.map (·.fileName) },
   w.manifests)

/-- The plan of a project. -/
def planOf (settings : Settings) (options : ConvertOptions) (services : OrderedMap String Service)
    (vars : DotEnv) : Except Name.Error Plan := do
  let «namespace» ← Name.ofText options.namespace
  let names ← Name.assign (OrderedMap.keys services)
  return {
    «namespace» := .ofNamespace «namespace»
    services := (services.zip names).map fun ((_, s), (_, name)) =>
      planService (workloadOf settings options vars name «namespace» s) }

end KubeCompose
