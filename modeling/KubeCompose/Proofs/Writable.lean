import KubeCompose.Proofs.Settled

/-!
# Planned documents can be written

The documents of planned manifests are built of mappings with text keys, sequences, texts and
numbers, so that each of them has a text, before a revision and after it.
-/

namespace KubeCompose

open Yaml (fields isWritable isWritable_listField)

theorem Probe.isWritable_ofImage (image : String) (port : Option Nat) :
    isWritable false (Probe.ofImage image port) = true := by
  rw [Probe.ofImage]
  split <;> simp [Probe.byCommand, Probe.byPort, Probe.times]

namespace Workload

variable {w : Workload}

theorem isWritable_labels (w : Workload) : isWritable false w.labels = true := by simp [labels]

theorem isWritable_metadata (w : Workload) : isWritable false w.metadata = true := by
  simp [metadata, metadataNamed]

theorem isWritable_container {env mounts : List Yaml} {ports : List Nat} {probe : Yaml}
    (hEnv : ∀ v ∈ env, isWritable false v = true) (hProbe : isWritable false probe = true)
    (hMounts : ∀ v ∈ mounts, isWritable false v = true) :
    isWritable false (w.container env ports probe mounts) = true := by
  have hPorts : ∀ v ∈ ports.map containerPort, isWritable false v = true := by
    simp [containerPort]
  rw [container, Yaml.isWritable_fields]
  simp only [List.forall_mem_append, isWritable_listField]
  refine ⟨⟨⟨⟨hEnv, ?_⟩, hPorts⟩, ?_⟩, hMounts⟩
  · simp [hProbe]
  · simp [hProbe, resources]

theorem isWritable_podTemplate {c : Yaml} {volumes : List Yaml}
    (hContainer : isWritable false c = true) (hVolumes : ∀ v ∈ volumes, isWritable false v = true) :
    isWritable false (w.podTemplate c volumes) = true := by
  simp only [podTemplate, Yaml.isWritable_fields, Yaml.isWritable_seq, List.forall_mem_cons,
    List.not_mem_nil, false_implies, implies_true, and_true, isWritable_labels,
    isWritable_listField]
  exact ⟨trivial, hContainer, hVolumes⟩

theorem isWritable_deploymentContainer (w : Workload) :
    isWritable false w.deploymentContainer = true := by
  refine isWritable_container ?_ (Probe.isWritable_ofImage ..) ?_
  · refine List.forall_mem_map.2 fun e _ => ?_
    simp
  · rw [dataMounts]
    cases w.dataPath? <;> simp [dataMount]

theorem isWritable_deploymentTemplate (w : Workload) :
    isWritable false (w.podTemplate w.deploymentContainer w.dataVolumes) = true := by
  refine isWritable_podTemplate w.isWritable_deploymentContainer ?_
  rw [dataVolumes]
  cases w.dataPath? <;> simp

theorem isWritable_deployment (w : Workload) : isWritable false w.deployment = true := by
  rw [deployment_eq]
  simp [object, selector, isWritable_metadata, isWritable_labels, isWritable_deploymentTemplate]

theorem isWritable_asDaemonSet (w : Workload) :
    isWritable false (Revise.asDaemonSet w.deployment) = true := by
  rw [asDaemonSet_deployment]
  simp [object, selector, isWritable_metadata, isWritable_labels, isWritable_deploymentTemplate]

theorem isWritable_claimSpec : isWritable false claimSpec = true := by simp [claimSpec]

theorem isWritable_statefulSet (w : Workload) (d : Database) (governor : String) :
    isWritable false (w.statefulSet d governor) = true := by
  have hEnv : ∀ v ∈ (databaseSettings d w.name w.environment).map (fun e =>
      fields
        [("name", .str e.1),
         ("valueFrom",
          fields [("configMapKeyRef", fields [("key", .str e.1), ("name", .str w.name)])])]),
      isWritable false v = true := by
    refine List.forall_mem_map.2 fun e _ => ?_
    simp
  have hContainer : isWritable false (w.container _ [d.port] _ [dataMount d.mountPath]) = true :=
    isWritable_container hEnv
      (Probe.isWritable_ofImage w.service.imageLower (some d.port)) (by simp [dataMount])
  have hTemplate : isWritable false (w.podTemplate _ []) = true :=
    isWritable_podTemplate hContainer (by simp)
  simp [statefulSet, object, selector, isWritable_metadata, isWritable_labels, hTemplate,
    isWritable_claimSpec]

theorem isWritable_frontService (w : Workload) : isWritable false w.frontService = true := by
  simp [frontService, object, isWritable_metadata, isWritable_labels]

theorem isWritable_ingress (w : Workload) : isWritable false w.ingress = true := by
  simp [ingress, object]

theorem isWritable_configMapOf (w : Workload) (data : List (String × String)) :
    isWritable false (w.configMapOf data) = true := by
  have hData : isWritable false (Yaml.textMap data) = true := by
    rw [Yaml.textMap, Yaml.isWritable_fields]
    refine List.forall_mem_map.2 fun e _ => ?_
    simp
  simp [configMapOf, object, isWritable_metadata, hData]

theorem isWritable_volumeClaim (w : Workload) : isWritable false w.volumeClaim = true := by
  simp [volumeClaim, object, metadataNamed, isWritable_claimSpec]

theorem isWritable_manifests (w : Workload) :
    ∀ m ∈ w.manifests, isWritable false m.document = true := by
  rw [manifests]
  cases w.classification.database <;> cases w.environment.isEmpty <;>
    cases w.classification.needsIngress <;> cases w.classification.needsClaim <;>
    simp [isWritable_deployment, isWritable_statefulSet, isWritable_frontService,
      isWritable_ingress, isWritable_volumeClaim, configMap, databaseConfigMap,
      isWritable_configMapOf]

end Workload

theorem isWritable_ofNamespace (space : String) :
    isWritable false (Manifest.ofNamespace space).document = true := by
  simp [Manifest.ofNamespace, Workload.object]

end KubeCompose
