import KubeCompose.Text.Blank
import KubeCompose.Text.Fields
import KubeCompose.Text.Lowercase
import KubeCompose.Number.Digits

/-!
# Settings

What a conversion needs to know besides the project: the registry, the cluster, the resources of a
container, which services count as databases, and the programs to call.
-/

namespace KubeCompose

open Text (trimmed lowercase dropTrailing cutAt? containsText)

/-- A kind of local cluster. -/
inductive ClusterKind where
  | minikube
  | docker
  | kind
  deriving DecidableEq, Repr

namespace ClusterKind

/-- All kinds. -/
def all : List ClusterKind := [.minikube, .docker, .kind]

/-- The name of a kind. -/
def name : ClusterKind → String
  | .minikube => "minikube"
  | .docker => "docker"
  | .kind => "kind"

/-- The kind of a name. -/
def ofName? (name : String) : Option ClusterKind := all.find? fun k => k.name == name

/-- The kind that a text names, whatever its case and the white space around it. -/
def ofText? (text : String) : Option ClusterKind := ofName? (lowercase (trimmed text))

/-- The name under which the pods of a cluster reach the registry of the host. -/
def registryHost : ClusterKind → String
  | .minikube => "host.minikube.internal"
  | .docker => "host.docker.internal"
  | .kind => "kind-registry"

end ClusterKind

/-- Amounts of processor time and memory. -/
structure Quantities where
  cpu : String
  memory : String
  deriving DecidableEq, Repr

/-- The amounts when nothing else is said. -/
def Quantities.standard : Quantities := ⟨"100m", "128Mi"⟩

/-- What a container asks for and what it may use. -/
structure Limits where
  requests : Quantities
  limits : Quantities
  deriving DecidableEq, Repr

/-- The limits when nothing else is said. -/
def Limits.standard : Limits := ⟨⟨"100m", "128Mi"⟩, ⟨"500m", "512Mi"⟩⟩

/-- The limits of services and of databases. -/
structure Resources where
  service : Limits
  database : Limits
  deriving DecidableEq, Repr

/-- The resources when nothing else is said. -/
def Resources.standard : Resources :=
  ⟨.standard, ⟨⟨"200m", "256Mi"⟩, ⟨"1000m", "1Gi"⟩⟩⟩

/-- The programs to call. -/
structure Programs where
  docker : String
  kompose : String
  kubectl : String
  deriving DecidableEq, Repr

/-- The programs when nothing else is said. -/
def Programs.standard : Programs := ⟨"docker", "kompose", "kubectl"⟩

/-- The cluster to convert for. -/
structure Cluster where
  «namespace» : String
  context : Option String
  skipTlsVerify : Bool
  kind : Option ClusterKind
  deriving DecidableEq, Repr

/-- The cluster when nothing else is said. -/
def Cluster.standard : Cluster := ⟨"default", none, false, none⟩

/-- The registry that holds the images. An explicit address takes the place of host, port and path.
-/
structure Registry where
  enabled : Bool
  url : Option String
  host : String
  port : Nat
  path : String
  insecure : Bool
  username : Option String
  password : Option String
  deriving DecidableEq, Repr

/-- The registry when nothing else is said. -/
def Registry.standard : Registry := ⟨false, none, "localhost", 5000, "", false, none, none⟩

/-- An address with another host; what follows the host's first colon or slash stays. -/
def replaceHost (address host : List Char) : List Char :=
  let (authority, rest) :=
    match cutAt? '/' address with
    | some (authority, rest) => (authority, '/' :: rest)
    | none => (address, [])
  match cutAt? ':' authority with
  | some (_, port) => host ++ ':' :: port ++ rest
  | none => host ++ rest

namespace Registry

/-- The path without the slashes around it. -/
def trimmedPath (r : Registry) : List Char :=
  dropTrailing (· == '/') (r.path.toList.dropWhile (· == '/'))

/-- The address to which images are pushed. -/
def pushAddress (r : Registry) : String :=
  match r.url with
  | some url => String.ofList (dropTrailing (· == '/') url.toList)
  | none =>
    let base := r.host ++ ":" ++ Number.decimal r.port
    match r.trimmedPath with
    | [] => base
    | path => base ++ "/" ++ String.ofList path

/-- The address from which a cluster pulls images. A local cluster reaches the host by another
name. -/
def pullAddress (r : Registry) (cluster : Option ClusterKind) : String :=
  match cluster with
  | some c => String.ofList (replaceHost r.pushAddress.toList c.registryHost.toList)
  | none => r.pushAddress

/-- The user and the password, when there are both. -/
def credentials? (r : Registry) : Option (String × String) :=
  match r.username, r.password with
  | some user, some password => if user = "" then none else some (user, password)
  | _, _ => none

end Registry

/-- All settings. -/
structure Settings where
  registry : Registry
  cluster : Cluster
  resources : Resources
  databaseTypes : List String
  programs : Programs
  deriving DecidableEq, Repr

namespace Settings

/-- The settings when nothing else is said. -/
def standard : Settings :=
  { registry := .standard
    cluster := .standard
    resources := .standard
    databaseTypes := ["mysql", "mongo", "postgres", "redis"]
    programs := .standard }

/-- Uses a registry at an explicit address. -/
def withRegistryUrl (s : Settings) (url : String) : Settings :=
  { s with registry := { s.registry with url := some url, enabled := true } }

/-- The address to which images are pushed, when a registry is used. -/
def pushRegistry? (s : Settings) : Option String :=
  if s.registry.enabled then some s.registry.pushAddress else none

/-- The address from which the cluster pulls images, when a registry is used. -/
def pullRegistry? (s : Settings) : Option String :=
  if s.registry.enabled then some (s.registry.pullAddress s.cluster.kind) else none

/-- The limits of a service: those of a database when its name contains one of the types. -/
def limitsFor (s : Settings) (service : String) : Limits :=
  let name := (lowercase service).toList
  if s.databaseTypes.any fun t => containsText t.toList name then s.resources.database
  else s.resources.service

end Settings

end KubeCompose
