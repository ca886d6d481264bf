import KubeCompose.FileTree.Error
import KubeCompose.Settings.Basic
import KubeCompose.Yaml.Decode
import KubeCompose.Yaml.Document
import KubeCompose.Yaml.Value

/-!
# Settings as documents

Settings are written as a document in which every setting has its place. A document laid over that
one gives new settings, when it still has the right shape; a section that has become null stands for
the standard one.
-/

namespace KubeCompose

open Yaml (Decoder DecodeError fields)
open Yaml.Decode

/-- A text or null. -/
def Yaml.ofOption : Option String → Yaml
  | some s => .str s
  | none => .null

namespace ClusterKind

/-- A cluster kind by its name, or by a tag on null. -/
def decode : Decoder ClusterKind := fun v =>
  let named (name : String) : Except DecodeError ClusterKind :=
    match ofName? name with
    | some k => .ok k
    | none => .error (.unknownVariant name (all.map ClusterKind.name))
  match v with
  | .str name => named name
  | .tagged name w => do
    let k ← named name
    match w.untagged with
    | .null => pure k
    | w => throw (.wrongType w "unit")
  | v => .error (.wrongType v "a Value::Tagged enum")

end ClusterKind

namespace Quantities

/-- The document of amounts. -/
def toYaml (q : Quantities) : Yaml := fields [("cpu", .str q.cpu), ("memory", .str q.memory)]

/-- Reads amounts. -/
def decode : Decoder Quantities :=
  record "ResourceQuantities" ["cpu", "memory"] .standard fun q field v =>
    match field with
    | "cpu" => (text v).map fun cpu => { q with cpu := cpu }
    | _ => (text v).map fun memory => { q with memory := memory }

end Quantities

namespace Limits

/-- The document of limits. -/
def toYaml (l : Limits) : Yaml :=
  fields [("requests", l.requests.toYaml), ("limits", l.limits.toYaml)]

/-- Reads limits. -/
def decode : Decoder Limits :=
  record "ResourceLimits" ["requests", "limits"] .standard fun l field v =>
    match field with
    | "requests" => (Quantities.decode v).map fun requests => { l with requests := requests }
    | _ => (Quantities.decode v).map fun limits => { l with limits := limits }

end Limits

namespace Resources

/-- The document of resources. -/
def toYaml (r : Resources) : Yaml :=
  fields [("default", r.service.toYaml), ("database", r.database.toYaml)]

/-- Reads resources. -/
def decode : Decoder Resources :=
  record "ResourceConfig" ["default", "database"] .standard fun r field v =>
    match field with
    | "default" => (Limits.decode v).map fun service => { r with service := service }
    | _ => (Limits.decode v).map fun database => { r with database := database }

end Resources

namespace Programs

/-- The document of programs. -/
def toYaml (p : Programs) : Yaml :=
  fields [("docker", .str p.docker), ("kompose", .str p.kompose), ("kubectl", .str p.kubectl)]

/-- Reads programs. -/
def decode : Decoder Programs :=
  record "ToolsConfig" ["docker", "kompose", "kubectl"] .standard fun p field v =>
    match field with
    | "docker" => (text v).map fun docker => { p with docker := docker }
    | "kompose" => (text v).map fun kompose => { p with kompose := kompose }
    | _ => (text v).map fun kubectl => { p with kubectl := kubectl }

end Programs

namespace Cluster

/-- The document of a cluster. -/
def toYaml (c : Cluster) : Yaml :=
  fields
    [("namespace", .str c.namespace), ("context", .ofOption c.context),
     ("insecureSkipTlsVerify", .bool c.skipTlsVerify),
     ("clusterType", .ofOption (c.kind.map ClusterKind.name))]

/-- Reads a cluster. -/
def decode : Decoder Cluster :=
  record "KubernetesConfig"
    ["namespace", "context", "insecureSkipTlsVerify", "clusterType"] .standard
    fun c field v =>
      match field with
      | "namespace" => (text v).map fun name => { c with «namespace» := name }
      | "context" => (optional text v).map fun context => { c with context := context }
      | "insecureSkipTlsVerify" => (bool v).map fun skip => { c with skipTlsVerify := skip }
      | _ => (optional ClusterKind.decode v).map fun kind => { c with kind := kind }

end Cluster

namespace Registry

/-- The document of a registry. -/
def toYaml (r : Registry) : Yaml :=
  fields
    [("enabled", .bool r.enabled), ("url", .ofOption r.url), ("host", .str r.host),
     ("port", .int r.port), ("path", .str r.path), ("insecure", .bool r.insecure),
     ("username", .ofOption r.username), ("password", .ofOption r.password)]

/-- Reads a registry. -/
def decode : Decoder Registry :=
  record "RegistryConfig"
    ["enabled", "url", "host", "port", "path", "insecure", "username", "password"] .standard
    fun r field v =>
      match field with
      | "enabled" => (bool v).map fun enabled => { r with enabled := enabled }
      | "url" => (optional text v).map fun url => { r with url := url }
      | "host" => (text v).map fun host => { r with host := host }
      | "port" => (integer 0 65535 "u16" v).map fun port => { r with port := port.toNat }
      | "path" => (text v).map fun path => { r with path := path }
      | "insecure" => (bool v).map fun insecure => { r with insecure := insecure }
      | "username" => (optional text v).map fun username => { r with username := username }
      | _ => (optional text v).map fun password => { r with password := password }

end Registry

namespace Settings

/-- The document of all settings. -/
def toYaml (s : Settings) : Yaml :=
  fields
    [("registry", s.registry.toYaml), ("kubernetes", s.cluster.toYaml),
     ("resources", s.resources.toYaml),
     ("databaseServiceTypes", .seq (s.databaseTypes.map .str)), ("tools", s.programs.toYaml)]

/-- Reads all settings. -/
def decode : Decoder Settings :=
  record "Config" ["registry", "kubernetes", "resources", "databaseServiceTypes", "tools"] .standard
    fun s field v =>
      match field with
      | "registry" => (Registry.decode v).map fun registry => { s with registry := registry }
      | "kubernetes" => (Cluster.decode v).map fun cluster => { s with cluster := cluster }
      | "resources" => (Resources.decode v).map fun resources => { s with resources := resources }
      | "databaseServiceTypes" => (list text v).map fun types => { s with databaseTypes := types }
      | _ => (Programs.decode v).map fun programs => { s with programs := programs }

end Settings

/-- Why settings cannot be had. -/
inductive SettingsError where
  | portNotNumber (text : String)
  | unknownCluster (text : String)
  | overlayNotMapping
  | badOverlay (cause : DecodeError)
  | unreadableOverlay (cause : Yaml.ReadError)
  | fileNotFound (path : String)
  | unreadableFile (cause : FileError)
  deriving Repr

/-- The wording of an error. -/
def SettingsError.message : SettingsError → String
  | .portNotNumber text =>
    "Invalid configuration: REGISTRY_PORT must be a port number, got '" ++ text ++ "'"
  | .unknownCluster text =>
    "Invalid configuration: unknown cluster type '" ++ text ++
      "' (expected minikube, docker or kind)"
  | .overlayNotMapping => "Invalid configuration: config file must contain a mapping"
  | .badOverlay cause => "Invalid configuration: " ++ cause.message
  | .unreadableOverlay cause => "Failed to parse YAML: " ++ cause.message
  | .fileNotFound path => "Invalid configuration: config file not found: " ++ path
  | .unreadableFile cause => "IO error: " ++ cause.message

/-- The cluster kind that a text names. -/
def ClusterKind.ofText (text : String) : Except SettingsError ClusterKind :=
  match ofText? text with
  | some k => .ok k
  | none => .error (.unknownCluster (Text.lowercase (Text.trimmed text)))

namespace Settings

/-- Whether an overlay names a host for the registry. -/
def namesHost (overlay : Yaml) : Bool :=
  ((overlay.get? "registry").bind fun r => r.get? "host").any fun h => !h.isNull

/-- Lays a document over the settings. Naming a host turns the registry on. -/
def overlay (s : Settings) (document : Yaml) : Except SettingsError Settings :=
  match document with
  | .null => .ok s
  | .map _ =>
    match decode (s.toYaml.merge document) with
    | .error e => .error (.badOverlay e)
    | .ok merged =>
      .ok
        (if namesHost document then
          { merged with registry := { merged.registry with enabled := true } }
        else merged)
  | _ => .error .overlayNotMapping

/-- Lays the document of a text over the settings. -/
def overlayText (s : Settings) (text : String) : Except SettingsError Settings :=
  match Yaml.parse text with
  | .error e => .error (.unreadableOverlay e)
  | .ok document => s.overlay document

end Settings

end KubeCompose
