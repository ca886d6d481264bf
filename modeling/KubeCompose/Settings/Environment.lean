import KubeCompose.PortMapping
import KubeCompose.Settings.Document
import KubeCompose.Workspace

/-!
# Settings from environment variables

Each variable sets one setting, when it is not empty. A variable for a host turns the registry on.
The document of a file may be laid over the settings of the variables.
-/

namespace KubeCompose

open Text (trim trimmed lowercase splitOn asciiLowercase)

/-- The value of each variable that is set. -/
abbrev Variables := String → Option String

namespace Variables

/-- The value of a variable that is set and not empty. -/
def value? (vars : Variables) (name : String) : Option String :=
  (vars name).filter (· != "")

/-- Whether a variable says `true`, in any case. -/
def flag (vars : Variables) (name : String) : Bool :=
  (vars.value? name).any fun v => asciiLowercase v == "true"

end Variables

namespace Settings

/-- The types that a list with commas names. -/
def typesOfText (text : String) : List String :=
  ((splitOn ',' text.toList).map fun t => lowercase (String.ofList (trim t))).filter (· != "")

/-- The registry that the variables describe. -/
def registryOfVariables (vars : Variables) : Except SettingsError Registry := do
  let host := vars.value? "REGISTRY_HOST"
  let port ←
    match vars.value? "REGISTRY_PORT" with
    | none => pure Registry.standard.port
    | some text =>
      match PortMapping.readNumber? (trim text.toList) with
      | some n => if n < Number.twoTo 16 then pure n else throw (.portNotNumber text)
      | none => throw (.portNotNumber text)
  return {
    enabled := host.isSome
    url := none
    host := host.getD Registry.standard.host
    port := port
    path := (vars.value? "REGISTRY_PATH").getD Registry.standard.path
    insecure := vars.flag "REGISTRY_INSECURE"
    username := vars.value? "REGISTRY_USERNAME"
    password := vars.value? "REGISTRY_PASSWORD" }

/-- The cluster that the variables describe; an unknown kind is passed over. -/
def clusterOfVariables (vars : Variables) : Cluster :=
  { «namespace» := (vars.value? "K8S_NAMESPACE").getD Cluster.standard.namespace
    context := vars.value? "K8S_CONTEXT"
    skipTlsVerify := vars.flag "K8S_INSECURE_SKIP_TLS_VERIFY"
    kind := (vars.value? "K8S_CLUSTER_TYPE").bind ClusterKind.ofText? }

/-- The resources that the variables describe. -/
def resourcesOfVariables (vars : Variables) : Resources :=
  let standard := Resources.standard
  let quantities (cpu memory : String) (q : Quantities) : Quantities :=
    ⟨(vars.value? cpu).getD q.cpu, (vars.value? memory).getD q.memory⟩
  { service :=
      ⟨quantities "DEFAULT_CPU_REQUEST" "DEFAULT_MEMORY_REQUEST" standard.service.requests,
       quantities "DEFAULT_CPU_LIMIT" "DEFAULT_MEMORY_LIMIT" standard.service.limits⟩
    database :=
      ⟨quantities "DB_CPU_REQUEST" "DB_MEMORY_REQUEST" standard.database.requests,
       quantities "DB_CPU_LIMIT" "DB_MEMORY_LIMIT" standard.database.limits⟩ }

/-- The settings that the variables describe. -/
def ofVariables (vars : Variables) : Except SettingsError Settings := do
  let registry ← registryOfVariables vars
  return {
    registry := registry
    cluster := clusterOfVariables vars
    resources := resourcesOfVariables vars
    databaseTypes :=
      ((vars.value? "DB_SERVICE_TYPES").map typesOfText).getD standard.databaseTypes
    programs :=
      { Programs.standard with
        kompose := (vars.value? "KOMPOSE_BIN").getD Programs.standard.kompose } }

/-! ### A settings file -/

/-- The variable that names the settings file. -/
def fileVariable : String := "BERTH_CONFIG"

/-- Loads the settings: those of the variables, and over them the file that is given or that a
variable names. -/
def load (w : Workspace) (vars : Variables) (path : Option String) :
    Except SettingsError Settings := do
  let base ← ofVariables vars
  match path.or (vars.value? fileVariable) with
  | none => return base
  | some file =>
    if w.isFile file then
      let text ← (w.readText file).mapError .unreadableFile
      base.overlayText text
    else throw (.fileNotFound file)

end Settings

end KubeCompose
