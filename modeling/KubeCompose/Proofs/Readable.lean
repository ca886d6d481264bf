import KubeCompose.Proofs.Inputs
import KubeCompose.Proofs.PortMapping
import KubeCompose.Proofs.RoundTrip.Simple

/-!
# Planned documents are read back

The documents of planned manifests are simple: their numbers are ports, numbers of replicas and
times, and they nest a few levels deep. So each of them is read from its own text, before a revision
and after it.
-/

namespace KubeCompose

open OrderedMap (keys)
open Yaml (Simple fields)

/-! ### Numbers of a service -/

/-- A service whose number of replicas fits a machine word. -/
def Compose.Service.Bounded (s : Compose.Service) : Prop :=
  ∀ n, s.replicas = some n → -2147483648 ≤ n ∧ n < 2147483648

section Decode

open Yaml (exists_of_bind_eq_ok exists_of_map_eq_ok)
open Yaml.Decode (fieldsFrom)

/-- What every field keeps, the record keeps. -/
theorem of_fieldsFrom {σ : Type} {known seen : List String}
    {set : σ → String → Yaml → Except Yaml.DecodeError σ} {P : σ → Prop} {r r' : σ}
    {entries : List (Yaml × Yaml)} (hSet : ∀ s name v s', P s → set s name v = .ok s' → P s')
    (hStart : P r) (hRead : fieldsFrom known set seen r entries = .ok r') : P r' := by
  induction entries generalizing seen r with
  | nil => exact Except.ok.inj hRead ▸ hStart
  | cons e entries ih =>
    obtain ⟨k, v⟩ := e
    rw [fieldsFrom] at hRead
    obtain ⟨name, -, hRead⟩ := exists_of_bind_eq_ok hRead
    split at hRead
    · split at hRead
      · cases hRead
      · obtain ⟨s, hField, hRest⟩ := exists_of_bind_eq_ok hRead
        exact ih (hSet r name v s hStart hField) hRest
    · exact ih hStart hRead

/-- What is there was read. -/
theorem of_optional_eq_ok {α : Type} {decode : Yaml.Decoder α} {v : Yaml} {a : Option α}
    (h : Yaml.Decode.optional decode v = .ok a) : ∀ b, a = some b → decode v = .ok b := by
  rintro b rfl
  unfold Yaml.Decode.optional at h
  split at h
  · cases h
  · obtain ⟨c, hRead, hSame⟩ := exists_of_map_eq_ok h
    rw [hRead, Option.some.inj hSame]

namespace Compose

theorem word_of_decodeDeploy {v : Yaml} {deploy : Option Int} (h : decodeDeploy v = .ok deploy) :
    ∀ n, deploy = some n → -2147483648 ≤ n ∧ n < 2147483648 := by
  have hField : ∀ (s : Option Int) (name : String) (u : Yaml) (s' : Option Int),
      (∀ n, s = some n → -2147483648 ≤ n ∧ n < 2147483648) →
      Yaml.Decode.optional
        (Yaml.Decode.integer (-(Number.twoTo 31 : Int)) (Number.twoTo 31 - 1) "i32") u = .ok s' →
      ∀ n, s' = some n → -2147483648 ≤ n ∧ n < 2147483648 := by
    rintro - - u s' - hRead n rfl
    have hInt := of_optional_eq_ok hRead n rfl
    unfold Yaml.Decode.integer at hInt
    split at hInt
    · split at hInt
      · rename_i hBounds
        rw [← Except.ok.inj hInt]
        exact ⟨hBounds.1, Int.lt_of_le_sub_one hBounds.2⟩
      · cases hInt
    · cases hInt
  unfold decodeDeploy Yaml.Decode.record at h
  split at h
  · exact of_fieldsFrom hField (by simp) h
  · exact Except.ok.inj h ▸ (by simp)
  · cases h

theorem Service.bounded_of_setField {s s' : Service} {field : String} {v : Yaml} (h : s.Bounded)
    (hField : setField s field v = .ok s') : s'.Bounded := by
  unfold setField at hField
  split at hField
  case h_6 =>
    obtain ⟨deploy, hDeploy, rfl⟩ := exists_of_map_eq_ok hField
    intro n hn
    have hJoin : deploy.join = some n := hn
    cases deploy with
    | none => cases hJoin
    | some inner =>
      exact word_of_decodeDeploy (of_optional_eq_ok hDeploy inner rfl) n hJoin
  case h_7 => exact Except.ok.inj hField ▸ h
  all_goals
    obtain ⟨part, -, rfl⟩ := exists_of_map_eq_ok hField
    exact h

theorem bounded_of_decodeService {name : String} {v : Yaml} {s : Service}
    (h : decodeService name v = .ok s) : s.Bounded := by
  unfold decodeService at h
  split at h
  · split at h
    · split at h
      · rename_i hRead
        rw [← Except.ok.inj h]
        exact of_fieldsFrom (fun _ _ _ _ => Service.bounded_of_setField)
          (by simp [Service.Bounded, Service.empty, Service.replicas]) hRead
      · cases h
    · cases h
  · cases h

theorem bounded_of_decodeServices {done services : OrderedMap String Service}
    {entries : List (Yaml × Yaml)} (hDone : ∀ e ∈ done, e.2.Bounded)
    (h : decodeServices done entries = .ok services) : ∀ e ∈ services, e.2.Bounded := by
  induction entries generalizing done with
  | nil => exact Except.ok.inj h ▸ hDone
  | cons e entries ih =>
    obtain ⟨key, v⟩ := e
    rw [decodeServices] at h
    split at h
    · cases h
    · obtain ⟨s, hService, hRest⟩ := exists_of_bind_eq_ok h
      refine ih (fun e he => ?_) hRest
      rcases OrderedMap.mem_of_mem_insert he with hOld | rfl
      · exact hDone e hOld
      · exact bounded_of_decodeService hService

/-- The services of a project that was loaded ask for numbers of replicas that fit. -/
theorem Project.bounded_of_load {w : Workspace} {path : String} {p : Project}
    (h : load w path = .ok p) : ∀ e ∈ p.services, e.2.Bounded := by
  rw [load] at h
  obtain ⟨file, -, h⟩ := exists_of_bind_eq_ok h
  obtain ⟨text, -, h⟩ := exists_of_bind_eq_ok h
  obtain ⟨services, hParse, h⟩ := exists_of_bind_eq_ok h
  rw [← Except.ok.inj h]
  have hRead := of_mapError_eq_ok hParse
  rw [parseServices] at hRead
  split at hRead
  · cases hRead
  · rw [servicesOf] at hRead
    split at hRead
    · cases hRead
    · split at hRead
      · cases hRead
      · exact Except.ok.inj hRead ▸ List.forall_mem_nil _
      · exact bounded_of_decodeServices (List.forall_mem_nil _) hRead
      · cases hRead

end Compose

end Decode

namespace PortMapping

/-- A mapping between ports in the range of ports. -/
structure Bounded (m : PortMapping) : Prop where
  target : m.target < 65536
  published : ∀ port, m.published = some port → port < 65536

theorem Bounded.servicePort {m : PortMapping} (h : m.Bounded) : m.servicePort < 65536 := by
  rw [PortMapping.servicePort]
  cases hPublished : m.published with
  | none => exact h.target
  | some port => exact h.published port hPublished

theorem bounded_ofPort (vars : DotEnv) (p : Compose.Port) : (ofPort vars p).Bounded := by
  have hSound := sound_ofPort vars p
  refine ⟨Nat.lt_succ_of_le hSound.target.2, fun port hPort => ?_⟩
  exact Nat.lt_succ_of_le (hSound.published port hPort).2

end PortMapping

theorem Database.port_lt (d : Database) : d.port < 65536 := by cases d <;> decide

/-- A port number fits a machine word. -/
theorem word_of_port {n : Nat} (h : n < 65536) :
    -9223372036854775808 ≤ (n : Int) ∧ (n : Int) < 18446744073709551616 := by omega

/-! ### Planned documents -/

namespace Workload

variable {w : Workload} {depth : Nat}

/-- A workload whose numbers fit their types. -/
structure Bounded (w : Workload) : Prop where
  ports : ∀ m ∈ w.ports, m.Bounded
  replicas : w.service.Bounded

theorem Bounded.withDashedValues (h : w.Bounded) : w.withDashedValues.Bounded :=
  ⟨h.ports, h.replicas⟩

theorem simple_labels (w : Workload) : Simple (depth + 1) w.labels := by
  simp [labels, OrderedMap.keys]

theorem simple_metadata (w : Workload) : Simple (depth + 1) w.metadata := by
  simp [metadata, metadataNamed, OrderedMap.keys]

theorem simple_probe (image : String) {port : Option Nat} (h : ∀ n, port = some n → n < 65536) :
    Simple (depth + 3) (Probe.ofImage image port) := by
  rw [Probe.ofImage]
  split
  · simp [Probe.byCommand, Probe.times, OrderedMap.keys]
  · have hPort : port.getD Probe.defaultPort < 65536 := by
      cases port with
      | none => decide
      | some n => exact h n rfl
    simp [Probe.byPort, Probe.times, OrderedMap.keys, word_of_port hPort]

theorem simple_container {env mounts : List Yaml} {ports : List Nat} {probe : Yaml}
    (hEnv : ∀ v ∈ env, Simple (depth + 3) v) (hPorts : ∀ n ∈ ports, n < 65536)
    (hProbe : Simple (depth + 4) probe) (hMounts : ∀ v ∈ mounts, Simple (depth + 3) v) :
    Simple (depth + 5) (w.container env ports probe mounts) := by
  have hKeys : (keys (Yaml.listField "env" env ++
      [("image", Yaml.str w.image), ("livenessProbe", probe), ("name", .str w.name)] ++
      Yaml.listField "ports" (ports.map containerPort) ++
      [("readinessProbe", probe), ("resources", resources w.limits)] ++
      Yaml.listField "volumeMounts" mounts)).Nodup := by
    cases env <;> cases ports <;> cases mounts <;> simp [OrderedMap.keys, Yaml.listField]
  have hContainerPorts : ∀ v ∈ ports.map containerPort, Simple (depth + 3) v := by
    refine List.forall_mem_map.2 fun n hn => ?_
    simp [containerPort, OrderedMap.keys, word_of_port (hPorts n hn)]
  rw [container, Simple.fields_iff]
  refine ⟨hKeys, ?_⟩
  simp only [List.forall_mem_append, Simple.listField_iff]
  refine ⟨⟨⟨⟨hEnv, ?_⟩, hContainerPorts⟩, ?_⟩, hMounts⟩
  · simp [hProbe]
  · simp [hProbe, resources, OrderedMap.keys]

theorem simple_podTemplate {c : Yaml} {volumes : List Yaml} (hContainer : Simple (depth + 5) c)
    (hVolumes : ∀ v ∈ volumes, Simple (depth + 5) v) :
    Simple (depth + 8) (w.podTemplate c volumes) := by
  have hKeys : (keys (("containers", Yaml.seq [c]) :: Yaml.listField "volumes" volumes)).Nodup := by
    cases volumes <;> simp [OrderedMap.keys, Yaml.listField]
  have hSpec : Simple (depth + 7)
      (fields (("containers", .seq [c]) :: Yaml.listField "volumes" volumes)) := by
    rw [Simple.fields_iff, List.forall_mem_cons, Simple.listField_iff]
    exact ⟨hKeys, by simpa using hContainer, hVolumes⟩
  rw [podTemplate, Simple.fields_iff]
  refine ⟨by simp [OrderedMap.keys], List.forall_mem_cons.2 ⟨?_, List.forall_mem_singleton.2 hSpec⟩⟩
  simp [OrderedMap.keys, simple_labels]

section Bounded

variable (h : w.Bounded)
include h

theorem simple_deploymentContainer : Simple (depth + 5) w.deploymentContainer := by
  have hTargets : ∀ n ∈ w.ports.map (·.target), n < 65536 :=
    List.forall_mem_map.2 fun m hm => (h.ports m hm).target
  refine simple_container ?_ hTargets (simple_probe _ fun n hn => ?_) ?_
  · refine List.forall_mem_map.2 fun e _ => ?_
    simp [OrderedMap.keys]
  · obtain ⟨m, hm, rfl⟩ := Option.map_eq_some_iff.1 hn
    exact (h.ports m (List.mem_of_head? hm)).target
  · rw [dataMounts]
    cases w.dataPath? <;> simp [dataMount, OrderedMap.keys]

theorem simple_deploymentTemplate :
    Simple (depth + 8) (w.podTemplate w.deploymentContainer w.dataVolumes) := by
  refine simple_podTemplate (simple_deploymentContainer h) ?_
  rw [dataVolumes]
  cases w.dataPath? <;> simp [OrderedMap.keys]

theorem simple_deployment : Simple (depth + 10) w.deployment := by
  have hReplicas : -9223372036854775808 ≤ w.service.replicas.getD 1 ∧
      w.service.replicas.getD 1 < 18446744073709551616 := by
    cases hAsked : w.service.replicas with
    | none => decide
    | some n =>
      have hBounds := h.replicas n hAsked
      rw [Option.getD_some]
      omega
  rw [deployment_eq]
  simp [object, selector, OrderedMap.keys, simple_metadata, simple_labels, hReplicas,
    simple_deploymentTemplate h]

theorem simple_asDaemonSet : Simple (depth + 10) (Revise.asDaemonSet w.deployment) := by
  rw [asDaemonSet_deployment]
  simp [object, selector, OrderedMap.keys, simple_metadata, simple_labels,
    simple_deploymentTemplate h]

theorem servicePorts_lt : w.servicePorts.1 < 65536 ∧ w.servicePorts.2 < 65536 := by
  rw [servicePorts]
  cases w.classification.database with
  | some d => exact ⟨d.port_lt, d.port_lt⟩
  | none =>
    cases hMappings : w.ports with
    | nil => decide
    | cons m r =>
      have hm := h.ports m (by simp [hMappings])
      exact ⟨hm.servicePort, hm.target⟩

theorem simple_ingress : Simple (depth + 10) w.ingress := by
  simp [ingress, object, OrderedMap.keys, word_of_port (servicePorts_lt h).1]

theorem simple_frontService : Simple (depth + 10) w.frontService := by
  simp [frontService, object, OrderedMap.keys, simple_metadata, simple_labels,
    word_of_port (servicePorts_lt h).1, word_of_port (servicePorts_lt h).2]

end Bounded

theorem simple_claimSpec : Simple (depth + 4) claimSpec := by simp [claimSpec, OrderedMap.keys]

theorem simple_statefulSet (w : Workload) (d : Database) (governor : String) :
    Simple (depth + 10) (w.statefulSet d governor) := by
  have hEnv : ∀ v ∈ (databaseSettings d w.name w.environment).map (fun e =>
      fields
        [("name", .str e.1),
         ("valueFrom",
          fields [("configMapKeyRef", fields [("key", .str e.1), ("name", .str w.name)])])]),
      Simple (depth + 3) v := by
    refine List.forall_mem_map.2 fun e _ => ?_
    simp [OrderedMap.keys]
  have hPort : ∀ n, some d.port = some n → n < 65536 := by
    rintro n ⟨⟩
    exact d.port_lt
  have hContainer : Simple (depth + 5) (w.container _ [d.port] _ [dataMount d.mountPath]) :=
    simple_container hEnv (by simp [d.port_lt])
      (simple_probe w.service.imageLower hPort) (by simp [dataMount, OrderedMap.keys])
  have hTemplate : Simple (depth + 8) (w.podTemplate _ []) :=
    simple_podTemplate hContainer (by simp)
  simp [statefulSet, object, selector, OrderedMap.keys, simple_metadata, simple_labels, hTemplate,
    simple_claimSpec]

theorem simple_configMapOf (w : Workload) {data : List (String × String)}
    (h : (keys data).Nodup) : Simple (depth + 10) (w.configMapOf data) := by
  have hData : Simple (depth + 9) (Yaml.textMap data) := by
    rw [Yaml.textMap, Simple.fields_iff, OrderedMap.keys, List.map_map]
    refine ⟨nodup_keys_sortedByKey h, List.forall_mem_map.2 fun e _ => ?_⟩
    simp
  simp [configMapOf, object, OrderedMap.keys, simple_metadata, hData]

theorem simple_volumeClaim (w : Workload) : Simple (depth + 10) w.volumeClaim := by
  simp [volumeClaim, object, metadataNamed, OrderedMap.keys, simple_claimSpec]

theorem simple_pods (h : w.Bounded) : Simple (depth + 10) w.pods.document := by
  rw [pods]
  cases w.classification.database with
  | some d => exact simple_statefulSet w d w.name
  | none => exact simple_deployment h

theorem simple_manifests (h : w.Bounded) (hCoherent : w.Coherent) :
    ∀ m ∈ w.manifests, Simple (depth + 10) m.document :=
  forall_mem_manifests (simple_pods h) (simple_frontService h)
    (fun d => simple_configMapOf w (nodup_keys_databaseSettings hCoherent d))
    (simple_configMapOf w hCoherent.keys) (simple_ingress h) (simple_volumeClaim w)

/-- The manifests of a workload are simple also when they are settled. -/
theorem simple_settled (h : w.Bounded) (hCoherent : w.Coherent) (options : ConvertOptions) :
    ∀ m ∈ w.manifests, Simple (depth + 10) (options.settled m).document := by
  intro m hm
  have hDashed := withDashedValues_eq hm
  rw [ConvertOptions.settled]
  split
  · rename_i hDaemon
    rw [hDashed hDaemon.1]
    exact simple_asDaemonSet h.withDashedValues
  · by_cases hKind : m.kind = .deployment
    · simp only [hDashed hKind]
      exact simple_deployment h.withDashedValues
    · simp only [Manifest.withDashedValues, if_neg hKind]
      exact simple_manifests h hCoherent m hm

end Workload

section Planned

variable {settings : Settings} {options : ConvertOptions}
  {services : OrderedMap String Compose.Service} {vars : DotEnv} {plan : Plan} {space : String}

theorem bounded_workloadOf (settings : Settings) (options : ConvertOptions) (vars : DotEnv)
    (name space : String) {s : Compose.Service} (h : s.Bounded) :
    (workloadOf settings options vars name space s).Bounded where
  ports := List.forall_mem_map.2 fun p _ => PortMapping.bounded_ofPort vars p
  replicas := h

theorem simple_ofNamespace {depth : Nat} (space : String) :
    Simple (depth + 10) (Manifest.ofNamespace space).document := by
  simp [Manifest.ofNamespace, Workload.object, keys]

/-- The documents of a plan are read as they are written, before a revision and after it. -/
theorem Planned.readable (h : Planned settings options services vars space plan)
    (hBounded : ∀ e ∈ services, e.2.Bounded) :
    ∀ m ∈ plan.manifests, m.document.Readable ∧ (options.settled m).document.Readable := by
  intro m hm
  have hReady := h.ready m hm
  have hSimple : Simple (118 + 10) m.document ∧ Simple (118 + 10) (options.settled m).document := by
    rcases h.mem_manifests hm with rfl | ⟨e, he, hWorkload⟩
    · have hSettled : options.settled (.ofNamespace space) = .ofNamespace space := by
        simp [ConvertOptions.settled, Manifest.withDashedValues, Manifest.ofNamespace]
      rw [hSettled]
      exact ⟨simple_ofNamespace space, simple_ofNamespace space⟩
    · have hWorkloadBounded := bounded_workloadOf settings options vars (Name.normalize e.1)
        space (hBounded e he)
      have hCoherent := coherent_workloadOf settings options vars (Name.normalize e.1) space e.2
      exact ⟨Workload.simple_manifests hWorkloadBounded hCoherent m hWorkload,
        Workload.simple_settled hWorkloadBounded hCoherent options m hWorkload⟩
  exact ⟨hSimple.1.readable hReady.writable, hSimple.2.readable hReady.settledWritable⟩

end Planned

end KubeCompose
