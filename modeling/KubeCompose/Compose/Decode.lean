import KubeCompose.Compose.Service
import KubeCompose.Yaml.Decode
import KubeCompose.Yaml.Document

/-!
# Reading a project

A project is a mapping with a `services` mapping from names to services. Every service names an
image or a build section. What else a project says is passed over.
-/

namespace KubeCompose.Compose

open Number (twoTo)
open Yaml (DecodeError Decoder)
open Yaml.Decode

/-- A build section: the context alone, or a mapping. -/
def decodeBuild : Decoder Build :=
  alternative "RawBuild"
    [fun v => (textShape? v).map fun context => ⟨context, "Dockerfile"⟩,
     fun v => do
      let fields ← fieldsShape? ["context", "dockerfile"] v
      let context ← optionalTextShape? (shapeValue fields "context")
      let dockerfile ← optionalTextShape? (shapeValue fields "dockerfile")
      return ⟨context.getD ".", dockerfile.getD "Dockerfile"⟩]

/-- The shape of an environment in list form. -/
def environmentListShape? : Yaml → Option Environment
  | .seq items =>
    (items.mapM fun item =>
      ((textShape? item).map EnvironmentItem.assignment).or
        ((textMapShape? item).map EnvironmentItem.mapping)).map .list
  | _ => none

/-- An environment in either form. -/
def decodeEnvironment : Decoder Environment :=
  alternative "Environment" [fun v => (textMapShape? v).map .map, environmentListShape?]

/-- The shape of a port number. -/
def portNumberShape? : Yaml → Option Port
  | .int n => if -(twoTo 63 : Int) ≤ n ∧ n < twoTo 63 then some (.number n) else none
  | _ => none

/-- The shape of a port in long form. -/
def longPortShape? (v : Yaml) : Option Port := do
  let fields ← recordShape? ["target", "published", "protocol"] v
  let target ← optionalShape? (shapeValue fields "target")
  let published ← optionalShape? (shapeValue fields "published")
  let protocol ← optionalTextShape? (shapeValue fields "protocol")
  return .long target published protocol

/-- A port in any form. -/
def decodePort : Decoder Port :=
  alternative "PortSpec" [portNumberShape?, fun v => (textShape? v).map .short, longPortShape?]

/-- The shape of a volume in long form. -/
def longVolumeShape? (v : Yaml) : Option Volume := do
  let fields ← recordShape? ["type", "source", "target"] v
  let kind ← optionalTextShape? (shapeValue fields "type")
  let source ← optionalTextShape? (shapeValue fields "source")
  let target ← optionalTextShape? (shapeValue fields "target")
  return .long kind source target

/-- A volume in either form. -/
def decodeVolume : Decoder Volume :=
  alternative "VolumeSpec" [fun v => (textShape? v).map .short, longVolumeShape?]

/-- A deploy section: the number of replicas. -/
def decodeDeploy : Decoder (Option Int) :=
  record "DeployConfig" ["replicas"] none fun _ _ v =>
    optional (integer (-(twoTo 31 : Int)) (twoTo 31 - 1) "i32") v

/-- Sets a field of a service. -/
def setField (s : Service) (field : String) (v : Yaml) : Except DecodeError Service :=
  match field with
  | "image" => (optional text v).map fun image => { s with image := image }
  | "build" => (optional decodeBuild v).map fun build => { s with build := build }
  | "environment" =>
    (optional decodeEnvironment v).map fun environment => { s with environment := environment }
  | "ports" => (list decodePort v).map fun ports => { s with ports := ports }
  | "volumes" => (list decodeVolume v).map fun volumes => { s with volumes := volumes }
  | "deploy" => (optional decodeDeploy v).map fun deploy => { s with deploy := deploy }
  | _ => .ok s

/-- The fields of a service. -/
def serviceFields : List String :=
  ["image", "build", "environment", "ports", "volumes", "deploy"]

/-- Why a text is no project. -/
inductive ProjectError where
  | unreadable (cause : Yaml.ReadError)
  | notMapping
  | noServices
  | servicesNotMapping
  | nameNotText (key : Yaml)
  | serviceNotMapping (service : String)
  | badService (service : String) (cause : DecodeError)
  | missingImageOrBuild (service : String)
  deriving Repr

/-- The wording of an error. -/
def ProjectError.message : ProjectError → String
  | .unreadable cause => "Failed to parse YAML: " ++ cause.message
  | .notMapping => "Invalid compose file: top level must be a mapping"
  | .noServices => "Invalid compose file: missing 'services' section"
  | .servicesNotMapping => "Invalid compose file: 'services' must be a mapping"
  | .nameNotText key =>
    "Invalid compose file: service names must be strings, found " ++ key.structureText
  | .serviceNotMapping service =>
    "Invalid compose file: service '" ++ service ++ "' must be a mapping"
  | .badService service cause =>
    "Invalid compose file: service '" ++ service ++ "': " ++ cause.message
  | .missingImageOrBuild service =>
    "Service '" ++ service ++ "' must declare an 'image' or a 'build' section"

/-- Reads a service. -/
def decodeService (name : String) (v : Yaml) : Except ProjectError Service :=
  match v with
  | .map entries =>
    if OrderedMap.contains entries (.str "image") || OrderedMap.contains entries (.str "build") then
      match fieldsFrom serviceFields setField [] (.empty name) entries with
      | .ok s => .ok s
      | .error e => .error (.badService name e)
    else .error (.missingImageOrBuild name)
  | _ => .error (.serviceNotMapping name)

/-- Reads services in order, after those read before. -/
def decodeServices (done : OrderedMap String Service) :
    List (Yaml × Yaml) → Except ProjectError (OrderedMap String Service)
  | [] => .ok done
  | (key, v) :: rest =>
    match key.asText? with
    | none => .error (.nameNotText key)
    | some name => do
      let s ← decodeService name v
      decodeServices (OrderedMap.insert done name s) rest

/-- The services of a document. -/
def servicesOf (root : Yaml) : Except ProjectError (OrderedMap String Service) :=
  match root.asMap? with
  | none => .error .notMapping
  | some entries =>
    match OrderedMap.find? entries (.str "services") with
    | none => .error .noServices
    | some .null => .ok []
    | some (.map services) => decodeServices [] services
    | some _ => .error .servicesNotMapping

/-- The services of a project text, in order. -/
def parseServices (text : String) : Except ProjectError (OrderedMap String Service) :=
  match Yaml.parse text with
  | .error e => .error (.unreadable e)
  | .ok root => servicesOf root

/-! ### Parts of a service in texts of their own -/

/-- Why a text is no part of a service. -/
inductive PartError where
  | unreadable (cause : Yaml.ReadError)
  | bad (cause : DecodeError)
  deriving Repr

/-- The environment in a text. -/
def parseEnvironment (text : String) : Except PartError Environment := do
  let v ← (Yaml.Node.ofText text >>= Yaml.Node.toYaml).mapError .unreadable
  (decodeEnvironment v).mapError .bad

/-- The ports in a text; there are none where nothing is written. -/
def parsePorts (text : String) : Except PartError (List Port) := do
  let n ← (Yaml.Node.ofText text).mapError .unreadable
  if n.isBlank then return []
  match (← n.toYaml.mapError .unreadable).untagged with
  | .seq items => (items.mapM decodePort).mapError .bad
  | v => throw (.bad (.wrongType v "a sequence"))

end KubeCompose.Compose
