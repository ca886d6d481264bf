import KubeCompose.Proofs.Plan
import KubeCompose.Proofs.Yaml

/-!
# Links between the objects of a service

The objects of a service refer to one another by labels, ports, keys and names. They are read here
as a cluster would read them, by paths into the documents, and `Linked` says that no reference
leads nowhere. The main statement is that the objects of every planned service are linked.
-/

namespace KubeCompose

open Compose (Service)
open OrderedMap (find? find?_append find?_cons)
open Yaml (fields get?_fields find?_listField itemsAt entriesAt)

/-! ### What the objects say -/

/-- Whether the objects of a kind hold a template of pods. -/
def ManifestKind.holdsPods : ManifestKind → Bool
  | .deployment | .statefulSet | .daemonSet => true
  | _ => false

namespace Manifest

/-- The objects of a kind. -/
def ofKind (set : List Manifest) (kind : ManifestKind) : List Manifest :=
  set.filter fun m => m.kind = kind

/-- The containers in the template of a workload. -/
def containers (m : Manifest) : List Yaml :=
  m.document.itemsAt ["spec", "template", "spec", "containers"]

/-- The environment of the containers of a workload. -/
def environment (m : Manifest) : List Yaml := m.containers.flatMap (·.itemsAt ["env"])

/-- The ports of the containers of a workload. -/
def containerPorts (m : Manifest) : List (Option Yaml) :=
  (m.containers.flatMap (·.itemsAt ["ports"])).map (·.get? "containerPort")

/-- The mounts in the containers of a workload. -/
def mounts (m : Manifest) : List Yaml := m.containers.flatMap (·.itemsAt ["volumeMounts"])

/-- The volumes of the pods of a workload. -/
def volumes (m : Manifest) : List Yaml :=
  m.document.itemsAt ["spec", "template", "spec", "volumes"]

/-- The names under which volumes can be mounted: those of the pods' volumes, and those of the
claims that are made for each pod. -/
def volumeNames (m : Manifest) : List (Option Yaml) :=
  m.volumes.map (·.get? "name") ++
    (m.document.itemsAt ["spec", "volumeClaimTemplates"]).map (·.at? ["metadata", "name"])

/-- The ports of a service. -/
def servicePorts (m : Manifest) : List Yaml := m.document.itemsAt ["spec", "ports"]

/-- The paths of an ingress. -/
def httpPaths (m : Manifest) : List Yaml :=
  (m.document.itemsAt ["spec", "rules"]).flatMap (·.itemsAt ["http", "paths"])

/-- The data of a config map. -/
def data (m : Manifest) : List (Yaml × Yaml) := m.document.entriesAt ["data"]

/-- The name in the metadata of an object. -/
def objectName? (m : Manifest) : Option Yaml := m.document.at? ["metadata", "name"]

end Manifest

open Manifest (ofKind)

/-! ### References that hold -/

/-- Each object says its kind and stands in the namespace, under the name of the service; the
claims have names of their own. -/
structure Placed (space name : String) (set : List Manifest) : Prop where
  kind : ∀ m ∈ set, m.document.get? "kind" = some (.str m.kind.name)
  space : ∀ m ∈ set, m.document.at? ["metadata", "namespace"] = some (.str space)
  name : ∀ m ∈ set, m.kind ≠ .volumeClaim → m.objectName? = some (.str name)

/-- The workload and the service in front of it select pods by the one label that the pods have. -/
structure Labelled (name : String) (pods front : Manifest) : Prop where
  selector :
    pods.document.at? ["spec", "selector", "matchLabels"] = some (fields [("app", .str name)])
  template :
    pods.document.at? ["spec", "template", "metadata", "labels"] =
      some (fields [("app", .str name)])
  front : front.document.at? ["spec", "selector"] = some (fields [("app", .str name)])

/-- The service in front has one port. It leads to a port of the containers when the service is a
database or gives a port, and each path of an ingress leads to it. -/
structure Exposed (s : Service) (set : List Manifest) (pods front : Manifest) : Prop where
  port :
    ∃ port, front.servicePorts = [port] ∧
      ((Database.ofImage? s.imageLower).isSome ∨ s.ports ≠ [] →
        ∃ target, port.get? "targetPort" = some target ∧ some target ∈ pods.containerPorts) ∧
      ∀ m ∈ ofKind set .ingress, m.httpPaths ≠ [] ∧ ∀ path ∈ m.httpPaths,
        path.at? ["backend", "service", "name"] = front.objectName? ∧
          path.at? ["backend", "service", "port", "number"] = port.get? "port"

/-- The environment of a stateful set refers to the keys of its config map, each once and in their
order; that of a deployment has the pairs of its config map, which is there when it has any. -/
structure Configured (set : List Manifest) (pods : Manifest) : Prop where
  keys_nodup : ∀ m ∈ ofKind set .configMap, (m.data.map (·.1)).Nodup
  referred :
    pods.kind = .statefulSet →
      ∃ config, ofKind set .configMap = [config] ∧
        pods.environment.map (fun e =>
            (e.at? ["valueFrom", "configMapKeyRef", "name"],
             e.at? ["valueFrom", "configMapKeyRef", "key"])) =
          config.data.map fun pair => (config.objectName?, some pair.1)
  literal :
    pods.kind = .deployment →
      (ofKind set .configMap = [] ↔ pods.environment = []) ∧
        (ofKind set .configMap).length ≤ 1 ∧
        (pods.environment.map fun e => (e.get? "name", e.get? "value")).Perm
          (((ofKind set .configMap).flatMap (·.data)).map fun pair => (some pair.1, some pair.2))

/-- Each mount names a volume of the pods, and each claim that the pods use is in the set. -/
structure Stored (set : List Manifest) (pods : Manifest) : Prop where
  mounted : ∀ mount ∈ pods.mounts, ∃ name, mount.get? "name" = some name ∧
    some name ∈ pods.volumeNames
  claimed : ∀ volume ∈ pods.volumes, ∀ claim,
    volume.at? ["persistentVolumeClaim", "claimName"] = some claim →
      ∃ m ∈ ofKind set .volumeClaim, m.objectName? = some claim

/-- The objects of a service with the given name: one workload, one service in front of it, and all
that they refer to. -/
structure Linked (space name : String) (s : Service) (set : List Manifest)
    (pods front : Manifest) : Prop where
  pods_eq : set.filter (·.kind.holdsPods) = [pods]
  front_eq : ofKind set .service = [front]
  pods_kind :
    pods.kind = if (Database.ofImage? s.imageLower).isSome then .statefulSet else .deployment
  placed : Placed space name set
  labelled : Labelled name pods front
  exposed : Exposed s set pods front
  configured : Configured set pods
  stored : Stored set pods

/-- What is placed separately is placed together. -/
theorem Placed.append {space name : String} {set others : List Manifest}
    (h : Placed space name set) (h' : Placed space name others) :
    Placed space name (set ++ others) := by
  constructor
  · exact List.forall_mem_append.2 ⟨h.kind, h'.kind⟩
  · exact List.forall_mem_append.2 ⟨h.space, h'.space⟩
  · exact List.forall_mem_append.2 ⟨h.name, h'.name⟩

/-! ### Entries in the order of their keys -/

theorem sortedByKey_perm {α : Type} (entries : List (String × α)) :
    (sortedByKey entries).Perm entries :=
  List.mergeSort_perm entries _

theorem sortedByKey_idem {α : Type} (entries : List (String × α)) :
    sortedByKey (sortedByKey entries) = sortedByKey entries := by
  refine List.mergeSort_of_pairwise (List.pairwise_mergeSort ?_ ?_ entries)
  · intro a b c hab hbc
    simp only [decide_eq_true_eq] at hab hbc ⊢
    exact String.le_trans hab hbc
  · intro a b
    simp only [Bool.or_eq_true, decide_eq_true_eq]
    exact String.le_total a.1 b.1

theorem nodup_keys_sortedByKey {α : Type} {entries : List (String × α)}
    (h : (OrderedMap.keys entries).Nodup) : (OrderedMap.keys (sortedByKey entries)).Nodup :=
  ((sortedByKey_perm entries).map Prod.fst).nodup_iff.2 h

/-! ### The parts of a workload -/

namespace Workload

variable {w : Workload}

section Template

variable {kind : ManifestKind} {stem : String} {document : Yaml} {env mounts volumes : List Yaml}
  {ports : List Nat} {probe : Yaml}

theorem containers_template
    (h : document.at? ["spec", "template"] =
      some (w.podTemplate (w.container env ports probe mounts) volumes)) :
    Manifest.containers ⟨kind, stem, document⟩ = [w.container env ports probe mounts] := by
  have hRest := Yaml.itemsAt_append h ["spec", "containers"]
  rw [Manifest.containers]
  refine hRest.trans ?_
  simp [itemsAt, podTemplate, get?_fields, find?_cons]

theorem volumes_template
    (h : document.at? ["spec", "template"] =
      some (w.podTemplate (w.container env ports probe mounts) volumes)) :
    Manifest.volumes ⟨kind, stem, document⟩ = volumes := by
  have hRest := Yaml.itemsAt_append h ["spec", "volumes"]
  rw [Manifest.volumes]
  refine hRest.trans ?_
  simp [itemsAt, podTemplate, get?_fields, find?_cons, find?_listField]

theorem environment_template
    (h : document.at? ["spec", "template"] =
      some (w.podTemplate (w.container env ports probe mounts) volumes)) :
    Manifest.environment ⟨kind, stem, document⟩ = env := by
  rw [Manifest.environment, containers_template h, List.flatMap_singleton]
  simp [itemsAt, container, get?_fields, find?_cons, find?_append, find?_listField]

theorem containerPorts_template
    (h : document.at? ["spec", "template"] =
      some (w.podTemplate (w.container env ports probe mounts) volumes)) :
    Manifest.containerPorts ⟨kind, stem, document⟩ = ports.map fun p => some (.int p) := by
  have hPorts : (w.container env ports probe mounts).itemsAt ["ports"] =
      ports.map containerPort := by
    rw [← Yaml.items_listField (ports.map containerPort)]
    simp [itemsAt, container, get?_fields, find?_cons, find?_append, find?_listField]
  rw [Manifest.containerPorts, containers_template h, List.flatMap_singleton, hPorts, List.map_map]
  refine List.map_congr_left fun p _ => ?_
  simp [containerPort, get?_fields, find?_cons]

theorem mounts_template
    (h : document.at? ["spec", "template"] =
      some (w.podTemplate (w.container env ports probe mounts) volumes)) :
    Manifest.mounts ⟨kind, stem, document⟩ = mounts := by
  rw [Manifest.mounts, containers_template h, List.flatMap_singleton]
  simp [itemsAt, container, get?_fields, find?_cons, find?_append, find?_listField]

end Template

/-- The mounts in a deployment. -/
def dataMounts (w : Workload) : List Yaml := (w.dataPath?.map dataMount).toList

/-- The volumes of a deployment. -/
def dataVolumes (w : Workload) : List Yaml :=
  (w.dataPath?.map fun _ =>
    fields
      [("name", .str dataVolume),
       ("persistentVolumeClaim", fields [("claimName", .str (claimName w.name))])]).toList

/-- The container in a deployment. -/
def deploymentContainer (w : Workload) : Yaml :=
  w.container (w.environment.map fun e => fields [("name", .str e.1), ("value", .str e.2)])
    (w.ports.map (·.target))
    (Probe.ofImage w.service.imageLower (w.ports.head?.map (·.target))) w.dataMounts

theorem deployment_eq (w : Workload) :
    w.deployment =
      object .deployment
        [("metadata", w.metadata),
         ("spec",
          fields
            [("replicas", .int (w.service.replicas.getD 1)), ("selector", w.selector),
             ("template", w.podTemplate w.deploymentContainer w.dataVolumes)])] := by
  rw [deployment, deploymentContainer, dataMounts, dataVolumes]
  cases w.dataPath? <;> rfl

theorem template_deployment (w : Workload) :
    w.deployment.at? ["spec", "template"] =
      some (w.podTemplate
        (w.container (w.environment.map fun e => fields [("name", .str e.1), ("value", .str e.2)])
          (w.ports.map (·.target))
          (Probe.ofImage w.service.imageLower (w.ports.head?.map (·.target))) w.dataMounts)
        w.dataVolumes) := by
  rw [deployment_eq, ← deploymentContainer]
  simp [object, get?_fields, find?_cons]

theorem template_statefulSet (w : Workload) (d : Database) (governor : String) :
    (w.statefulSet d governor).at? ["spec", "template"] =
      some (w.podTemplate
        (w.container ((databaseSettings d w.name w.environment).map fun e =>
            fields
              [("name", .str e.1),
               ("valueFrom",
                fields
                  [("configMapKeyRef", fields [("key", .str e.1), ("name", .str w.name)])])])
          [d.port] (Probe.ofImage w.service.imageLower (some d.port)) [dataMount d.mountPath])
        []) := by
  simp [statefulSet, object, get?_fields, find?_cons]

/-! ### The manifests of a workload by their kinds -/

/-- The workload among the manifests. -/
def pods (w : Workload) : Manifest :=
  match w.classification.database with
  | some d => ⟨.statefulSet, w.name, w.statefulSet d w.name⟩
  | none => ⟨.deployment, w.name, w.deployment⟩

/-- The service among the manifests. -/
def front (w : Workload) : Manifest := ⟨.service, w.name, w.frontService⟩

/-- The config maps among the manifests. -/
def configMaps (w : Workload) : List Manifest :=
  match w.classification.database with
  | some d => [⟨.configMap, w.name, w.databaseConfigMap d⟩]
  | none => if w.environment.isEmpty then [] else [⟨.configMap, w.name, w.configMap⟩]

/-- The ingresses among the manifests. -/
def ingresses (w : Workload) : List Manifest :=
  if w.classification.needsIngress then [⟨.ingress, w.name, w.ingress⟩] else []

/-- The claims among the manifests. -/
def volumeClaims (w : Workload) : List Manifest :=
  if w.classification.needsClaim then [⟨.volumeClaim, w.name, w.volumeClaim⟩] else []

theorem manifests_eq (w : Workload) :
    w.manifests = w.pods :: w.front :: (w.configMaps ++ w.ingresses ++ w.volumeClaims) := by
  rw [manifests, pods, front, configMaps, ingresses, volumeClaims]
  cases w.classification.database <;> simp

theorem pods_kind (w : Workload) :
    w.pods.kind = if w.classification.database.isSome then .statefulSet else .deployment := by
  rw [pods]
  cases w.classification.database <;> rfl

section Members

variable {P : Manifest → Prop}

theorem forall_mem_configMaps (hDatabase : ∀ d, P ⟨.configMap, w.name, w.databaseConfigMap d⟩)
    (hOwn : P ⟨.configMap, w.name, w.configMap⟩) : ∀ m ∈ w.configMaps, P m := by
  rw [configMaps]
  cases w.classification.database with
  | some d => exact List.forall_mem_singleton.2 (hDatabase d)
  | none =>
    simp only
    split
    · exact List.forall_mem_nil _
    · exact List.forall_mem_singleton.2 hOwn

theorem forall_mem_ingresses (h : P ⟨.ingress, w.name, w.ingress⟩) : ∀ m ∈ w.ingresses, P m := by
  rw [ingresses]
  split
  · exact List.forall_mem_singleton.2 h
  · exact List.forall_mem_nil _

theorem forall_mem_volumeClaims (h : P ⟨.volumeClaim, w.name, w.volumeClaim⟩) :
    ∀ m ∈ w.volumeClaims, P m := by
  rw [volumeClaims]
  split
  · exact List.forall_mem_singleton.2 h
  · exact List.forall_mem_nil _

/-- What holds of each object a workload may have holds of its manifests. -/
theorem forall_mem_manifests (hPods : P w.pods) (hFront : P w.front)
    (hDatabase : ∀ d, P ⟨.configMap, w.name, w.databaseConfigMap d⟩)
    (hOwn : P ⟨.configMap, w.name, w.configMap⟩) (hIngress : P ⟨.ingress, w.name, w.ingress⟩)
    (hClaim : P ⟨.volumeClaim, w.name, w.volumeClaim⟩) : ∀ m ∈ w.manifests, P m := by
  intro m hm
  rw [manifests_eq, List.mem_cons, List.mem_cons, List.mem_append, List.mem_append] at hm
  rcases hm with rfl | rfl | (hm | hm) | hm
  · exact hPods
  · exact hFront
  · exact forall_mem_configMaps hDatabase hOwn m hm
  · exact forall_mem_ingresses hIngress m hm
  · exact forall_mem_volumeClaims hClaim m hm

end Members

theorem kind_of_mem_configMaps {m : Manifest} (h : m ∈ w.configMaps) : m.kind = .configMap :=
  forall_mem_configMaps (P := (·.kind = .configMap)) (fun _ => rfl) rfl m h

theorem kind_of_mem_ingresses {m : Manifest} (h : m ∈ w.ingresses) : m.kind = .ingress :=
  forall_mem_ingresses (P := (·.kind = .ingress)) rfl m h

theorem kind_of_mem_volumeClaims {m : Manifest} (h : m ∈ w.volumeClaims) :
    m.kind = .volumeClaim :=
  forall_mem_volumeClaims (P := (·.kind = .volumeClaim)) rfl m h

/-- Of objects of one kind, all or none are of a given kind. -/
theorem ofKind_of_forall {set : List Manifest} {kind : ManifestKind}
    (h : ∀ m ∈ set, m.kind = kind) (other : ManifestKind) :
    ofKind set other = if kind = other then set else [] := by
  rw [ofKind]
  split
  · rename_i hEq
    refine List.filter_eq_self.2 fun m hm => ?_
    simpa [h m hm] using hEq
  · rename_i hNe
    refine List.filter_eq_nil_iff.2 fun m hm => ?_
    simpa [h m hm] using hNe

theorem ofKind_append (set others : List Manifest) (kind : ManifestKind) :
    ofKind (set ++ others) kind = ofKind set kind ++ ofKind others kind :=
  List.filter_append set others

/-- The manifests of each kind that holds no template of pods. -/
theorem ofKind_manifests (w : Workload) {kind : ManifestKind} (h : kind.holdsPods = false) :
    ofKind w.manifests kind =
      match kind with
      | .service => [w.front]
      | .configMap => w.configMaps
      | .ingress => w.ingresses
      | .volumeClaim => w.volumeClaims
      | _ => [] := by
  have hPods : ofKind [w.pods] kind = [] := by
    have hNe : w.pods.kind ≠ kind := by
      rintro rfl
      rw [pods_kind] at h
      split at h <;> simp [ManifestKind.holdsPods] at h
    rw [ofKind_of_forall (List.forall_mem_singleton.2 rfl), if_neg hNe]
  have hFront : ∀ m ∈ [w.front], m.kind = .service := List.forall_mem_singleton.2 rfl
  have hEq : w.manifests =
      [w.pods] ++ [w.front] ++ w.configMaps ++ w.ingresses ++ w.volumeClaims := by
    simp [manifests_eq]
  rw [hEq]
  simp only [ofKind_append]
  rw [hPods, ofKind_of_forall hFront, ofKind_of_forall (fun _ => kind_of_mem_configMaps),
    ofKind_of_forall (fun _ => kind_of_mem_ingresses),
    ofKind_of_forall (fun _ => kind_of_mem_volumeClaims)]
  cases kind <;> simp

theorem ofKind_service (w : Workload) : ofKind w.manifests .service = [w.front] :=
  w.ofKind_manifests rfl

theorem ofKind_configMap (w : Workload) : ofKind w.manifests .configMap = w.configMaps :=
  w.ofKind_manifests rfl

theorem ofKind_ingress (w : Workload) : ofKind w.manifests .ingress = w.ingresses :=
  w.ofKind_manifests rfl

theorem ofKind_volumeClaim (w : Workload) : ofKind w.manifests .volumeClaim = w.volumeClaims :=
  w.ofKind_manifests rfl

theorem holdsPods_manifests (w : Workload) :
    w.manifests.filter (·.kind.holdsPods) = [w.pods] := by
  have hPods : w.pods.kind.holdsPods = true := by
    rw [pods_kind]
    split <;> rfl
  have hRest : (w.front :: (w.configMaps ++ w.ingresses ++ w.volumeClaims)).filter
      (·.kind.holdsPods) = [] := by
    refine List.filter_eq_nil_iff.2 fun m hm => ?_
    simp only [List.mem_cons, List.mem_append] at hm
    rcases hm with rfl | (hm | hm) | hm
    · simp [front, ManifestKind.holdsPods]
    · simp [kind_of_mem_configMaps hm, ManifestKind.holdsPods]
    · simp [kind_of_mem_ingresses hm, ManifestKind.holdsPods]
    · simp [kind_of_mem_volumeClaims hm, ManifestKind.holdsPods]
  rw [manifests_eq, List.filter_cons_of_pos (by exact hPods), hRest]

/-! ### The links of a workload -/

theorem placed_pods (w : Workload) : Placed w.namespace w.name [w.pods] := by
  rw [pods]
  cases w.classification.database with
  | some d =>
    constructor <;>
      simp [Manifest.objectName?, statefulSet, object, metadata, metadataNamed, get?_fields,
        find?_cons]
  | none =>
    constructor <;>
      simp [Manifest.objectName?, deployment, object, metadata, metadataNamed, get?_fields,
        find?_cons]

theorem placed_front (w : Workload) : Placed w.namespace w.name [w.front] := by
  constructor <;>
    simp [Manifest.objectName?, front, frontService, object, metadata, metadataNamed, get?_fields,
      find?_cons]

theorem placed_configMaps (w : Workload) : Placed w.namespace w.name w.configMaps := by
  have hOf : ∀ data, Placed w.namespace w.name [⟨.configMap, w.name, w.configMapOf data⟩] := by
    intro data
    constructor <;>
      simp [Manifest.objectName?, configMapOf, object, metadata, metadataNamed, get?_fields,
        find?_cons]
  rw [configMaps]
  split
  · exact hOf _
  · split
    · constructor <;> simp
    · exact hOf _

theorem placed_ingresses (w : Workload) : Placed w.namespace w.name w.ingresses := by
  rw [ingresses]
  split
  · constructor <;>
      simp [Manifest.objectName?, ingress, object, get?_fields, find?_cons]
  · constructor <;> simp

theorem placed_volumeClaims (w : Workload) : Placed w.namespace w.name w.volumeClaims := by
  rw [volumeClaims]
  split
  · constructor <;>
      simp [volumeClaim, object, metadataNamed, get?_fields, find?_cons]
  · constructor <;> simp

theorem placed_manifests (w : Workload) : Placed w.namespace w.name w.manifests := by
  have hEq : w.manifests =
      [w.pods] ++ [w.front] ++ w.configMaps ++ w.ingresses ++ w.volumeClaims := by
    simp [manifests_eq]
  rw [hEq]
  exact (((w.placed_pods.append w.placed_front).append w.placed_configMaps).append
    w.placed_ingresses).append w.placed_volumeClaims

theorem labelled_manifests (w : Workload) : Labelled w.name w.pods w.front := by
  constructor
  · rw [pods]
    cases w.classification.database with
    | some d => simp [statefulSet, object, selector, labels, get?_fields, find?_cons]
    | none => simp [deployment, object, selector, labels, get?_fields, find?_cons]
  · rw [pods]
    cases w.classification.database with
    | some d =>
      simp [statefulSet, object, podTemplate, labels, get?_fields, find?_cons]
    | none => simp [deployment, object, podTemplate, labels, get?_fields, find?_cons]
  · simp [front, frontService, object, labels, get?_fields, find?_cons]

/-- A workload whose parts were read off its service. -/
structure Coherent (w : Workload) : Prop where
  database : w.classification.database = Database.ofImage? w.service.imageLower
  ports : w.service.ports ≠ [] → w.ports ≠ []
  keys : (OrderedMap.keys w.environment).Nodup

theorem servicePorts_front (w : Workload) :
    w.front.servicePorts =
      [fields
        [("port", .int w.servicePorts.1), ("protocol", .str "TCP"),
         ("targetPort", .int w.servicePorts.2)]] := by
  simp [Manifest.servicePorts, front, frontService, object, itemsAt, get?_fields, find?_cons]

/-- The port behind the service is one of the containers when there are any. -/
theorem target_mem_containerPorts (w : Workload)
    (h : w.classification.database.isSome ∨ w.ports ≠ []) :
    some (Yaml.int w.servicePorts.2) ∈ w.pods.containerPorts := by
  rw [pods, servicePorts]
  cases hDatabase : w.classification.database with
  | some d =>
    rw [containerPorts_template (w.template_statefulSet d w.name)]
    simp
  | none =>
    rw [containerPorts_template w.template_deployment]
    cases hPorts : w.ports with
    | nil => simp [hDatabase, hPorts] at h
    | cons m r => simp

theorem httpPaths_ingress {m : Manifest} (h : m ∈ w.ingresses) :
    ∃ path, m.httpPaths = [path] ∧
      path.at? ["backend", "service", "name"] = some (.str w.name) ∧
      path.at? ["backend", "service", "port", "number"] = some (.int w.servicePorts.1) := by
  have hm : m = ⟨.ingress, w.name, w.ingress⟩ := by
    rw [ingresses] at h
    split at h
    · exact List.mem_singleton.1 h
    · simp at h
  refine ⟨fields
    [("backend", fields
        [("service",
          fields
            [("name", .str w.name), ("port", fields [("number", .int w.servicePorts.1)])])]),
     ("path", .str "/"), ("pathType", .str "Prefix")], ?_, ?_, ?_⟩
  · simp [hm, Manifest.httpPaths, ingress, object, itemsAt, get?_fields, find?_cons]
  · simp [get?_fields, find?_cons]
  · simp [get?_fields, find?_cons]

theorem exposed_manifests (h : w.Coherent) : Exposed w.service w.manifests w.pods w.front := by
  refine ⟨_, w.servicePorts_front, ?_, ?_⟩
  · intro hNeeds
    refine ⟨.int w.servicePorts.2, by simp [get?_fields, find?_cons], ?_⟩
    rw [← h.database] at hNeeds
    exact w.target_mem_containerPorts (hNeeds.imp_right h.ports)
  · intro m hm
    rw [ofKind_ingress] at hm
    obtain ⟨path, hPaths, hName, hNumber⟩ := httpPaths_ingress hm
    have hFront : w.front.objectName? = some (.str w.name) :=
      w.placed_front.name w.front (by simp) (by simp [front])
    rw [hPaths]
    refine ⟨by simp, List.forall_mem_singleton.2 ⟨?_, ?_⟩⟩
    · rw [hName, hFront]
    · rw [hNumber]
      simp [get?_fields, find?_cons]

theorem data_configMapOf (w : Workload) (data : List (String × String)) :
    Manifest.data ⟨.configMap, w.name, w.configMapOf data⟩ =
      (sortedByKey data).map fun e => (.str e.1, .str e.2) := by
  simp [Manifest.data, entriesAt, configMapOf, object, Yaml.textMap, get?_fields, find?_cons]

/-- The settings of a database have each key once. -/
theorem nodup_keys_databaseSettings (h : w.Coherent) (d : Database) :
    (OrderedMap.keys (databaseSettings d w.name w.environment)).Nodup := by
  rw [databaseSettings]
  apply nodup_keys_sortedByKey
  split
  · exact h.keys
  · rename_i settings hSettings
    have hKeys : (settings.map (·.1)).Nodup := by
      cases d <;> simp [Database.settings?] at hSettings <;> subst hSettings <;> decide
    rw [OrderedMap.keys, List.map_map]
    exact hKeys

/-- The data of a config map has each key once. -/
theorem nodup_keys_data {data : List (String × String)} (h : (OrderedMap.keys data).Nodup) :
    ((Manifest.data ⟨.configMap, w.name, w.configMapOf data⟩).map (·.1)).Nodup := by
  rw [data_configMapOf, List.map_map]
  have hSorted := nodup_keys_sortedByKey h
  rw [OrderedMap.keys] at hSorted
  have hEq : ((·.1) ∘ fun e : String × String => (Yaml.str e.1, Yaml.str e.2)) =
      Yaml.str ∘ (·.1) := rfl
  rw [hEq, ← List.map_map]
  exact hSorted.map fun a b hab => by injection hab

theorem configured_manifests (h : w.Coherent) : Configured w.manifests w.pods := by
  refine ⟨?_, ?_, ?_⟩ <;> rw [ofKind_configMap, configMaps]
  · intro m hm
    split at hm
    · rename_i d _
      rw [List.mem_singleton.1 hm]
      exact nodup_keys_data (nodup_keys_databaseSettings h d)
    · split at hm
      · simp at hm
      · rw [List.mem_singleton.1 hm]
        exact nodup_keys_data h.keys
  · intro hKind
    rw [pods]
    cases hDatabase : w.classification.database with
    | none => simp [pods_kind, hDatabase] at hKind
    | some d =>
      refine ⟨_, rfl, ?_⟩
      have hName : Manifest.objectName? ⟨.configMap, w.name, w.databaseConfigMap d⟩ =
          some (.str w.name) :=
        w.placed_configMaps.name _ (by simp [configMaps, hDatabase]) (by simp)
      rw [environment_template (w.template_statefulSet d w.name), hName, databaseConfigMap,
        data_configMapOf, databaseSettings, sortedByKey_idem, List.map_map, List.map_map]
      refine List.map_congr_left fun e _ => ?_
      simp [get?_fields, find?_cons]
  · intro hKind
    rw [pods]
    cases hDatabase : w.classification.database with
    | some d => simp [pods_kind, hDatabase] at hKind
    | none =>
      rw [environment_template w.template_deployment]
      cases hEnv : w.environment with
      | nil => simp
      | cons e r =>
        refine ⟨by simp, by simp, ?_⟩
        simp only [List.isEmpty_cons, Bool.false_eq_true, if_false, List.flatMap_singleton]
        rw [configMap, data_configMapOf, hEnv, List.map_map, List.map_map]
        refine List.Perm.trans (.of_eq ?_) ((sortedByKey_perm (e :: r)).symm.map _)
        refine List.map_congr_left fun e _ => ?_
        simp [get?_fields, find?_cons]

/-- A mount of the data names the volume of the data. -/
theorem name_dataMount (path : String) :
    (dataMount path).get? "name" = some (.str dataVolume) := by
  simp [dataMount, get?_fields, find?_cons]

theorem claimTemplates_statefulSet (w : Workload) (d : Database) (governor : String) :
    ((w.statefulSet d governor).itemsAt ["spec", "volumeClaimTemplates"]).map
      (·.at? ["metadata", "name"]) = [some (.str dataVolume)] := by
  simp [statefulSet, object, itemsAt, get?_fields, find?_cons]

/-- Where the data of a service has a path, there is a claim for it. -/
theorem volumeClaims_of_dataPath? {path : String} (h : w.dataPath? = some path) :
    w.volumeClaims = [⟨.volumeClaim, w.name, w.volumeClaim⟩] := by
  rw [dataPath?] at h
  split at h
  · rename_i hNeeds
    rw [volumeClaims, if_pos hNeeds]
  · simp at h

theorem stored_manifests (w : Workload) : Stored w.manifests w.pods := by
  rw [pods]
  cases hDatabase : w.classification.database with
  | some d =>
    have hTemplate := w.template_statefulSet d w.name
    constructor
    · intro mount hMount
      rw [mounts_template hTemplate, List.mem_singleton] at hMount
      refine ⟨.str dataVolume, hMount ▸ name_dataMount d.mountPath, ?_⟩
      rw [Manifest.volumeNames, claimTemplates_statefulSet]
      simp
    · intro volume hVolume
      rw [volumes_template hTemplate] at hVolume
      simp at hVolume
  | none =>
    have hTemplate := w.template_deployment
    cases hPath : w.dataPath? with
    | none =>
      constructor
      · intro mount hMount
        simp [mounts_template hTemplate, dataMounts, hPath] at hMount
      · intro volume hVolume
        simp [volumes_template hTemplate, dataVolumes, hPath] at hVolume
    | some path =>
      constructor
      · intro mount hMount
        rw [mounts_template hTemplate, dataMounts, hPath, Option.map_some, Option.toList_some,
          List.mem_singleton] at hMount
        refine ⟨.str dataVolume, hMount ▸ name_dataMount path, ?_⟩
        rw [Manifest.volumeNames, volumes_template hTemplate, dataVolumes, hPath]
        simp [get?_fields, find?_cons]
      · intro volume hVolume claim hClaim
        rw [volumes_template hTemplate, dataVolumes, hPath, Option.map_some, Option.toList_some,
          List.mem_singleton] at hVolume
        obtain rfl : Yaml.str (claimName w.name) = claim := by
          simpa [hVolume, get?_fields, find?_cons] using hClaim
        refine ⟨⟨.volumeClaim, w.name, w.volumeClaim⟩, ?_, ?_⟩
        · rw [ofKind_volumeClaim, volumeClaims_of_dataPath? hPath]
          exact List.mem_singleton_self _
        · simp [Manifest.objectName?, volumeClaim, object, metadataNamed, get?_fields, find?_cons]

/-- The objects of a workload are linked when its parts were read off its service. -/
theorem linked_manifests (h : w.Coherent) :
    Linked w.namespace w.name w.service w.manifests w.pods w.front where
  pods_eq := w.holdsPods_manifests
  front_eq := w.ofKind_service
  pods_kind := by rw [pods_kind, h.database]
  placed := w.placed_manifests
  labelled := w.labelled_manifests
  exposed := exposed_manifests h
  configured := configured_manifests h
  stored := w.stored_manifests

end Workload

/-! ### Planned services -/

theorem nodup_keys_resolvedEnvironment (s : Service) (vars : DotEnv) :
    (OrderedMap.keys (s.resolvedEnvironment vars)).Nodup := by
  rw [Service.resolvedEnvironment]
  cases s.environment with
  | none => exact List.nodup_nil
  | some env => exact OrderedMap.nodup_keys_ofList _

theorem coherent_workloadOf (settings : Settings) (options : ConvertOptions) (vars : DotEnv)
    (name space : String) (s : Service) :
    (workloadOf settings options vars name space s).Coherent where
  database := by simp only [workloadOf, Classification.ofService]
  ports h := by simpa [workloadOf, Service.portMappings] using h
  keys := nodup_keys_resolvedEnvironment s vars

theorem name?_ofNamespace (space : String) : (Manifest.ofNamespace space).name? = some space := by
  simp [Manifest.ofNamespace, Manifest.name?, Workload.object, get?_fields, find?_cons]

/-- Each service of a project is planned under the normal form of its key, and no reference between
its objects leads nowhere. -/
theorem linked_of_planOf {settings : Settings} {options : ConvertOptions}
    {services : OrderedMap String Service} {vars : DotEnv} {plan : Plan}
    (h : planOf settings options services vars = .ok plan) :
    ∃ space, plan.namespace.name? = some space ∧
      List.Forall₂
        (fun entry planned =>
          planned.1.service = entry.2.name ∧ planned.1.name = Name.normalize entry.1 ∧
            ∃ pods front, Linked space planned.1.name entry.2 planned.2 pods front)
        services plan.services := by
  obtain ⟨space, hPlanned⟩ := planned_planOf h
  refine ⟨space, by rw [hPlanned.namespace_eq, name?_ofNamespace], ?_⟩
  rw [hPlanned.services_eq, List.forall₂_map_right_iff]
  refine List.forall₂_same.2 fun entry _ => ?_
  have hCoherent := coherent_workloadOf settings options vars (Name.normalize entry.1) space entry.2
  exact ⟨rfl, rfl, _, _, Workload.linked_manifests hCoherent⟩

/-- A project with a database and a service of the web that keeps data. -/
def shopServices : OrderedMap String Service :=
  [("order_db",
    { Service.empty "order_db" with
      image := some "mysql:8", environment := some (.map [("MYSQL_USER", .str "shop")]) }),
   ("Web",
    { Service.empty "Web" with
      image := some "nginx"
      environment := some (.map [("MODE", .str "live"), ("LEVEL", .str "2")])
      ports := [.short "8080:80"]
      volumes := [.short "pages:/usr/share/nginx/html"] })]

theorem linked_of_planOf_shop :
    ∃ plan, planOf .standard ⟨"shop", none, "latest", []⟩ shopServices [] = .ok plan ∧
      ∃ space, plan.namespace.name? = some space ∧
        List.Forall₂
          (fun entry planned =>
            planned.1.service = entry.2.name ∧ planned.1.name = Name.normalize entry.1 ∧
              ∃ pods front, Linked space planned.1.name entry.2 planned.2 pods front)
          shopServices plan.services := by
  have hSpace : Name.ofText "shop" = .ok "shop" := by decide
  have hNames : Name.assign (OrderedMap.keys shopServices) =
      .ok [("order_db", "order-db"), ("Web", "web")] := by
    decide
  exact ⟨_, planOf_eq_ok hSpace hNames, linked_of_planOf (planOf_eq_ok hSpace hNames)⟩

end KubeCompose
