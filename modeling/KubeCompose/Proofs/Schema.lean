import KubeCompose.Proofs.Records
import KubeCompose.Settings.Environment
import Mathlib.Tactic.FinCases

/-!
# The parts of settings

Settings are a tree of sections, with single values at the ends. Each part stands in the document of
its section under a name, where it is written and read; so a single setting is written and read at
its path in the document of all settings.
-/

namespace KubeCompose.Settings

open Yaml (Decoder exists_of_map_eq_ok)
open Yaml.Decode (IsField Reads Writes writes_of_fields)
open Text (trim asciiLowercase)

/-! ### Contents -/

/-- What settings hold: single values, and sections with parts of their own. -/
inductive Content where
  | text
  | optionalText
  | flag
  | port
  | kind
  | texts
  | quantities
  | limits
  | resources
  | programs
  | cluster
  | registry
  | settings

namespace Content

/-- The values of a content. -/
abbrev Value : Content → Type
  | text => String
  | optionalText => Option String
  | flag => Bool
  | port => Nat
  | kind => Option ClusterKind
  | texts => List String
  | quantities => Quantities
  | limits => Limits
  | resources => Resources
  | programs => Programs
  | cluster => Cluster
  | registry => Registry
  | settings => Settings

/-- Whether a content has parts. -/
def isSection : Content → Bool
  | text | optionalText | flag | port | kind | texts => false
  | _ => true

/-- Reads a value. -/
def decode : (c : Content) → Decoder c.Value
  | text => Yaml.Decode.text
  | optionalText => Yaml.Decode.optional Yaml.Decode.text
  | flag => Yaml.Decode.bool
  | port => fun v => (Yaml.Decode.integer 0 65535 "u16" v).map Int.toNat
  | kind => Yaml.Decode.optional ClusterKind.decode
  | texts => Yaml.Decode.list Yaml.Decode.text
  | quantities => Quantities.decode
  | limits => Limits.decode
  | resources => Resources.decode
  | programs => Programs.decode
  | cluster => Cluster.decode
  | registry => Registry.decode
  | settings => Settings.decode

/-- Writes a value. -/
def encode : (c : Content) → c.Value → Yaml
  | text => .str
  | optionalText => .ofOption
  | flag => .bool
  | port => fun n => .int n
  | kind => fun k => .ofOption (k.map ClusterKind.name)
  | texts => fun l => .seq (l.map .str)
  | quantities => Quantities.toYaml
  | limits => Limits.toYaml
  | resources => Resources.toYaml
  | programs => Programs.toYaml
  | cluster => Cluster.toYaml
  | registry => Registry.toYaml
  | settings => Settings.toYaml

/-- What the text of a variable says of a single value. -/
def ofText? : (c : Content) → String → Option c.Value
  | text, s => some s
  | optionalText, s => some (some s)
  | flag, s => some (asciiLowercase s == "true")
  | port, s => (PortMapping.readNumber? (trim s.toList)).filter (· < Number.twoTo 16)
  | kind, s => some (ClusterKind.ofText? s)
  | texts, s => some (typesOfText s)
  | _, _ => none

variable {c : Content}

theorem encode_ne_map (h : c.isSection = false) (x : c.Value) (entries : List (Yaml × Yaml)) :
    c.encode x ≠ .map entries := by
  cases c with
  | text | flag | port | texts => simp [encode]
  | optionalText | kind => cases x <;> simp [encode, Yaml.ofOption]
  | _ => cases h

theorem mapM_text_str (l : List String) : (l.map Yaml.str).mapM Yaml.Decode.text = .ok l := by
  induction l with
  | nil => rfl
  | cons s l ih =>
    rw [List.map_cons, List.mapM_cons, ih]
    rfl

/-- A single value that was written is read. -/
theorem eq_of_decode_encode (h : c.isSection = false) {x y : c.Value}
    (hRead : c.decode (c.encode x) = .ok y) : y = x := by
  cases c with
  | text | flag => exact (Except.ok.inj hRead).symm
  | optionalText => cases x <;> exact (Except.ok.inj hRead).symm
  | port =>
    obtain ⟨n, hInt, rfl⟩ := exists_of_map_eq_ok hRead
    simp only [encode, Yaml.Decode.integer, Yaml.untagged] at hInt
    split at hInt
    · rw [← Except.ok.inj hInt, Int.toNat_natCast]
    · cases hInt
  | kind =>
    cases x with
    | none => exact (Except.ok.inj hRead).symm
    | some k => cases k <;> exact (Except.ok.inj hRead).symm
  | texts =>
    change (x.map Yaml.str).mapM Yaml.Decode.text = .ok y at hRead
    rw [mapM_text_str] at hRead
    exact (Except.ok.inj hRead).symm
  | _ => cases h

end Content

/-! ### Parts of sections -/

/-- A part of a section. -/
inductive Part : Content → Content → Type where
  | registry : Part .settings .registry
  | cluster : Part .settings .cluster
  | resources : Part .settings .resources
  | databaseTypes : Part .settings .texts
  | programs : Part .settings .programs
  | enabled : Part .registry .flag
  | url : Part .registry .optionalText
  | host : Part .registry .text
  | port : Part .registry .port
  | path : Part .registry .text
  | insecure : Part .registry .flag
  | username : Part .registry .optionalText
  | password : Part .registry .optionalText
  | namespaceName : Part .cluster .text
  | context : Part .cluster .optionalText
  | skipTlsVerify : Part .cluster .flag
  | kind : Part .cluster .kind
  | service : Part .resources .limits
  | database : Part .resources .limits
  | requests : Part .limits .quantities
  | limits : Part .limits .quantities
  | cpu : Part .quantities .text
  | memory : Part .quantities .text
  | docker : Part .programs .text
  | kompose : Part .programs .text
  | kubectl : Part .programs .text

namespace Part

variable {c e : Content}

/-- The name of a part in the document of a section. -/
def name : Part c e → String
  | registry => "registry"
  | cluster => "kubernetes"
  | resources => "resources"
  | databaseTypes => "databaseServiceTypes"
  | programs => "tools"
  | enabled => "enabled"
  | url => "url"
  | host => "host"
  | port => "port"
  | path => "path"
  | insecure => "insecure"
  | username => "username"
  | password => "password"
  | namespaceName => "namespace"
  | context => "context"
  | skipTlsVerify => "insecureSkipTlsVerify"
  | kind => "clusterType"
  | service => "default"
  | database => "database"
  | requests => "requests"
  | limits => "limits"
  | cpu => "cpu"
  | memory => "memory"
  | docker => "docker"
  | kompose => "kompose"
  | kubectl => "kubectl"

/-- The value of a part. -/
def get : Part c e → c.Value → e.Value
  | registry => Settings.registry
  | cluster => Settings.cluster
  | resources => Settings.resources
  | databaseTypes => Settings.databaseTypes
  | programs => Settings.programs
  | enabled => Registry.enabled
  | url => Registry.url
  | host => Registry.host
  | port => Registry.port
  | path => Registry.path
  | insecure => Registry.insecure
  | username => Registry.username
  | password => Registry.password
  | namespaceName => Cluster.namespace
  | context => Cluster.context
  | skipTlsVerify => Cluster.skipTlsVerify
  | kind => Cluster.kind
  | service => Resources.service
  | database => Resources.database
  | requests => Limits.requests
  | limits => Limits.limits
  | cpu => Quantities.cpu
  | memory => Quantities.memory
  | docker => Programs.docker
  | kompose => Programs.kompose
  | kubectl => Programs.kubectl

/-- A part is read from the value of its name. -/
theorem reads (p : Part c e) : Reads c.decode [p.name] e.decode p.get := by
  cases p
  all_goals
    apply IsField.reads
    constructor
    · decide
    · intro r v r' hSet
      obtain ⟨x, hRead, rfl⟩ := exists_of_map_eq_ok hSet
      first
        | exact hRead
        | exact congrArg (Except.map Int.toNat) hRead
    · intro g hg hNe r v r' hSet
      fin_cases hg <;> obtain ⟨x, -, rfl⟩ := exists_of_map_eq_ok hSet
      all_goals first | rfl | exact absurd rfl hNe

/-- A part is written under its name. -/
theorem writes (p : Part c e) : Writes c.encode [p.name] e.encode p.get := by
  apply writes_of_fields
  intro r
  cases p <;> exact ⟨_, rfl, rfl⟩

/-- A section is determined by its parts. -/
theorem ext (hSection : c.isSection = true) {x y : c.Value}
    (h : ∀ {e : Content} (p : Part c e), p.get x = p.get y) : x = y := by
  cases c with
  | quantities => exact congrArg₂ Quantities.mk (h .cpu) (h .memory)
  | limits => exact congrArg₂ Limits.mk (h .requests) (h .limits)
  | resources => exact congrArg₂ Resources.mk (h .service) (h .database)
  | programs =>
    obtain ⟨⟩ := x
    exact Programs.mk.injEq .. ▸ ⟨h .docker, h .kompose, h .kubectl⟩
  | cluster =>
    obtain ⟨⟩ := x
    exact Cluster.mk.injEq .. ▸ ⟨h .namespaceName, h .context, h .skipTlsVerify, h .kind⟩
  | registry =>
    obtain ⟨⟩ := x
    exact Registry.mk.injEq .. ▸
      ⟨h .enabled, h .url, h .host, h .port, h .path, h .insecure, h .username, h .password⟩
  | settings =>
    obtain ⟨⟩ := x
    exact Settings.mk.injEq .. ▸
      ⟨h .registry, h .cluster, h .resources, h .databaseTypes, h .programs⟩
  | _ => cases hSection

end Part

/-! ### Single settings -/

/-- The paths of the sections in the document of all settings. -/
def sections : List (List String) :=
  [["registry"], ["kubernetes"], ["tools"], ["resources"],
   ["resources", "default"], ["resources", "default", "requests"],
   ["resources", "default", "limits"], ["resources", "database"],
   ["resources", "database", "requests"], ["resources", "database", "limits"]]

/-- A single setting. -/
inductive Leaf : Content → Type where
  | registry {c : Content} (p : Part .registry c) : Leaf c
  | cluster {c : Content} (p : Part .cluster c) : Leaf c
  | quantity (group : Part .resources .limits) (side : Part .limits .quantities)
    (amount : Part .quantities .text) : Leaf .text
  | databaseTypes : Leaf .texts
  | program (p : Part .programs .text) : Leaf .text

namespace Leaf

variable {c : Content}

/-- The path of a setting in the document of all settings. -/
def path : Leaf c → List String
  | registry p => [Part.registry.name, p.name]
  | cluster p => [Part.cluster.name, p.name]
  | quantity group side amount =>
    [Part.resources.name, group.name, side.name, amount.name]
  | databaseTypes => [Part.databaseTypes.name]
  | program p => [Part.programs.name, p.name]

/-- The value of a setting. -/
def get : Leaf c → Settings → c.Value
  | registry p, s => p.get s.registry
  | cluster p, s => p.get s.cluster
  | quantity group side amount, s => amount.get (side.get (group.get s.resources))
  | databaseTypes, s => s.databaseTypes
  | program p, s => p.get s.programs

/-- The variable that describes a setting. -/
def variableName? : Leaf c → Option String
  | registry .host => "REGISTRY_HOST"
  | registry .port => "REGISTRY_PORT"
  | registry .path => "REGISTRY_PATH"
  | registry .insecure => "REGISTRY_INSECURE"
  | registry .username => "REGISTRY_USERNAME"
  | registry .password => "REGISTRY_PASSWORD"
  | registry .enabled | registry .url => none
  | cluster .namespaceName => "K8S_NAMESPACE"
  | cluster .context => "K8S_CONTEXT"
  | cluster .skipTlsVerify => "K8S_INSECURE_SKIP_TLS_VERIFY"
  | cluster .kind => "K8S_CLUSTER_TYPE"
  | quantity .service .requests .cpu => "DEFAULT_CPU_REQUEST"
  | quantity .service .requests .memory => "DEFAULT_MEMORY_REQUEST"
  | quantity .service .limits .cpu => "DEFAULT_CPU_LIMIT"
  | quantity .service .limits .memory => "DEFAULT_MEMORY_LIMIT"
  | quantity .database .requests .cpu => "DB_CPU_REQUEST"
  | quantity .database .requests .memory => "DB_MEMORY_REQUEST"
  | quantity .database .limits .cpu => "DB_CPU_LIMIT"
  | quantity .database .limits .memory => "DB_MEMORY_LIMIT"
  | databaseTypes => "DB_SERVICE_TYPES"
  | program .kompose => "KOMPOSE_BIN"
  | program .docker | program .kubectl => none

theorem isSection_eq_false (l : Leaf c) : c.isSection = false := by
  cases l with
  | registry p => cases p <;> rfl
  | cluster p => cases p <;> rfl
  | _ => rfl

theorem reads (l : Leaf c) : Reads Settings.decode l.path c.decode l.get := by
  cases l with
  | registry p => exact Part.registry.reads.append p.reads
  | cluster p => exact Part.cluster.reads.append p.reads
  | quantity group side amount =>
    exact Part.resources.reads.append (group.reads.append (side.reads.append amount.reads))
  | databaseTypes => exact Part.databaseTypes.reads
  | program p => exact Part.programs.reads.append p.reads

theorem writes (l : Leaf c) : Writes Settings.toYaml l.path c.encode l.get := by
  cases l with
  | registry p => exact Part.registry.writes.append p.writes
  | cluster p => exact Part.cluster.writes.append p.writes
  | quantity group side amount =>
    exact Part.resources.writes.append (group.writes.append (side.writes.append amount.writes))
  | databaseTypes => exact Part.databaseTypes.writes
  | program p => exact Part.programs.writes.append p.writes

/-- A path to a setting goes through sections. -/
theorem mem_sections (l : Leaf c) : ∀ p ∈ l.path.dropLast.inits, p = [] ∨ p ∈ sections := by
  cases l with
  | quantity group side amount => cases group <;> cases side <;> simp [path, sections, Part.name]
  | _ => simp [path, sections, Part.name]

/-- Settings are determined by the single ones. -/
theorem ext {s t : Settings} (h : ∀ {c : Content} (l : Leaf c), l.get s = l.get t) : s = t := by
  have hAmounts : ∀ (group : Part .resources .limits) (side : Part .limits .quantities),
      side.get (group.get s.resources) = side.get (group.get t.resources) := by
    intro group side
    apply Part.ext (c := .quantities) rfl
    intro e amount
    cases amount with
    | cpu => exact h (.quantity group side .cpu)
    | memory => exact h (.quantity group side .memory)
  have hLimits : ∀ group : Part .resources .limits,
      group.get s.resources = group.get t.resources := by
    intro group
    apply Part.ext (c := .limits) rfl
    intro e side
    cases side with
    | requests => exact hAmounts group .requests
    | limits => exact hAmounts group .limits
  apply Part.ext (c := .settings) rfl
  intro e p
  cases p with
  | registry => exact Part.ext (c := .registry) rfl fun p => h (.registry p)
  | cluster => exact Part.ext (c := .cluster) rfl fun p => h (.cluster p)
  | resources => exact congrArg₂ Resources.mk (hLimits .service) (hLimits .database)
  | databaseTypes => exact h .databaseTypes
  | programs =>
    apply Part.ext (c := .programs) rfl
    intro e p
    cases p with
    | docker => exact h (.program .docker)
    | kompose => exact h (.program .kompose)
    | kubectl => exact h (.program .kubectl)

end Leaf

end KubeCompose.Settings
