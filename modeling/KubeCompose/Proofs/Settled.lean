import KubeCompose.Manifest.Directory
import KubeCompose.Proofs.Links
import KubeCompose.Proofs.Revise

/-!
# What a revision makes of planned manifests

A planned manifest stands in its namespace, its image is in the registry and its names hold no
underscores. So a revision changes nothing in it but the values in the environment of a deployment,
and makes daemon sets of the deployments that are to run on every node.
-/

namespace KubeCompose

open OrderedMap (find?_append find?_cons)
open Yaml (fields get?_fields find?_listField updateKey setKey removeKey)

namespace Revise

/-- The values in the environments of a workload's containers. -/
def environmentPath : List Step := environmentValues (template ++ [.key "spec"]) "containers"

/-- A workload with dashes for the underscores in the values of its containers' environments. -/
def dashedValues (document : Yaml) : Yaml := changeAt dashText environmentPath document

/-- A deployment as a daemon set, which has no number of replicas. -/
def asDaemonSet (document : Yaml) : Yaml :=
  setKey "kind" (.str "DaemonSet") (updateKey "spec" (removeKey "replicas") document)

/-- The rules for underscores but for the one on the values of environments: those before it and
those behind it. -/
theorem dashRules_eq :
    dashRules = dashRules.take 4 ++ (environmentPath, dashText) :: dashRules.drop 5 := rfl

end Revise

open Revise (reached dashedValues asDaemonSet dashNames dashRules environmentPath dashText)

namespace Workload

variable {w : Workload}

/-- A workload with dashes for the underscores in the values of its environment. -/
def withDashedValues (w : Workload) : Workload :=
  { w with environment := w.environment.map fun e => (e.1, Revise.dashed e.2) }

theorem dashKeys_labels (w : Workload) : Revise.dashKeys w.labels = w.labels := by
  have hApp : Revise.dashed "app" = "app" := Revise.dashed_eq_self (by decide)
  simp [labels, fields, Revise.dashKeys, hApp, OrderedMap.ofList, OrderedMap.insert]

section Dashes

variable (hName : '_' ∉ w.name.toList)
include hName

theorem reached_deployment : ∀ rule ∈ dashRules.take 4 ++ dashRules.drop 5,
    ∀ u ∈ reached rule.1 w.deployment, rule.2 u = u := by
  have hDashed := Revise.dashed_eq_self hName
  simp [dashRules, reached, deployment, object, Revise.template, Revise.environmentValues,
    podTemplate, container, selector, metadata, metadataNamed, get?_fields, find?_cons,
    find?_listField, dashText, hDashed, dashKeys_labels]

theorem dashNames_statefulSet (d : Database) (governor : String) :
    dashNames (w.statefulSet d governor) = w.statefulSet d governor := by
  have hDashed := Revise.dashed_eq_self hName
  apply Revise.foldl_changeAt_eq_self
  simp [dashRules, reached, statefulSet, object, Revise.template, Revise.environmentValues,
    podTemplate, container, selector, metadata, metadataNamed, get?_fields, find?_cons,
    find?_append, find?_listField, dashText, hDashed, dashKeys_labels]

theorem dashNames_frontService : dashNames w.frontService = w.frontService := by
  have hDashed := Revise.dashed_eq_self hName
  apply Revise.foldl_changeAt_eq_self
  simp [dashRules, reached, frontService, object, Revise.template, Revise.environmentValues,
    labels, metadata, metadataNamed, get?_fields, find?_cons, dashText, hDashed]

theorem dashNames_configMapOf (data : List (String × String)) :
    dashNames (w.configMapOf data) = w.configMapOf data := by
  have hDashed := Revise.dashed_eq_self hName
  apply Revise.foldl_changeAt_eq_self
  simp [dashRules, reached, configMapOf, object, Revise.template, Revise.environmentValues,
    metadata, metadataNamed, get?_fields, find?_cons, dashText, hDashed]

theorem dashNames_ingress : dashNames w.ingress = w.ingress := by
  have hDashed := Revise.dashed_eq_self hName
  apply Revise.foldl_changeAt_eq_self
  simp [dashRules, reached, ingress, object, Revise.template, Revise.environmentValues,
    get?_fields, find?_cons, dashText, hDashed]

theorem dashNames_volumeClaim : dashNames w.volumeClaim = w.volumeClaim := by
  have hClaim : Revise.dashed (claimName w.name) = claimName w.name := by
    apply Revise.dashed_eq_self
    simpa [claimName] using hName
  apply Revise.foldl_changeAt_eq_self
  simp [dashRules, reached, volumeClaim, claimSpec, object, Revise.template,
    Revise.environmentValues, metadataNamed, get?_fields, find?_cons, dashText, hClaim]

end Dashes

/-- A change in the environment of a container is one of its environment. -/
theorem changeAt_container (f : Yaml → Yaml) (path : List Revise.Step) (env : List Yaml)
    (ports : List Nat) (probe : Yaml) (mounts : List Yaml) :
    Revise.changeAt f (.key "env" :: .each :: path) (w.container env ports probe mounts) =
      w.container (env.map (Revise.changeAt f path)) ports probe mounts := by
  cases env with
  | nil =>
    apply Revise.changeAt_eq_self
    simp [reached, container, get?_fields, find?_cons, find?_append, find?_listField]
  | cons e r =>
    simp [container, Yaml.listField, Revise.changeAt_key_fields, Revise.changeAt_each_seq,
      OrderedMap.modify]

theorem dashText_literal (key value : String) :
    Revise.changeAt dashText [.key "value"] (fields [("name", .str key), ("value", .str value)]) =
      fields [("name", .str key), ("value", .str (Revise.dashed value))] := by
  rw [Revise.changeAt_key_fields]
  simp [OrderedMap.modify, Revise.changeAt, dashText]

/-- With dashes in its values, the deployment of a workload is that of the workload with dashes in
its values. -/
theorem dashedValues_deployment (w : Workload) :
    dashedValues w.deployment = w.withDashedValues.deployment := by
  have hEnv : (w.environment.map fun e => fields [("name", .str e.1), ("value", .str e.2)]).map
      (Revise.changeAt dashText [.key "value"]) =
        w.withDashedValues.environment.map fun e =>
          fields [("name", .str e.1), ("value", .str e.2)] := by
    rw [withDashedValues, List.map_map, List.map_map]
    exact List.map_congr_left fun e _ => dashText_literal e.1 e.2
  have hPath : environmentPath =
      [.key "spec", .key "template", .key "spec", .key "containers", .each, .key "env", .each,
        .key "value"] := rfl
  rw [dashedValues, hPath, deployment, deployment, ← hEnv]
  simp only [object, podTemplate, Revise.changeAt_key_fields, Revise.changeAt_each_seq,
    OrderedMap.modify, List.map_cons, List.map_nil, changeAt_container,
    String.reduceBEq, Bool.false_eq_true, if_false, if_true]
  rfl

/-- The rules for underscores change nothing in a deployment but the values of its environment. -/
theorem dashNames_deployment (hName : '_' ∉ w.name.toList) :
    dashNames w.deployment = dashedValues w.deployment := by
  have hBefore := fun rule hRule => reached_deployment hName rule (List.mem_append_left _ hRule)
  have hBehind := fun rule hRule =>
    reached_deployment (w := w.withDashedValues) hName rule (List.mem_append_right _ hRule)
  rw [dashNames, Revise.dashRules_eq, List.foldl_append, List.foldl_cons,
    Revise.foldl_changeAt_eq_self hBefore]
  change List.foldl _ (dashedValues w.deployment) _ = _
  rw [dashedValues_deployment, Revise.foldl_changeAt_eq_self hBehind]

/-! ### Daemon sets -/

/-- The daemon set of a workload: its template takes the place of the number of replicas. -/
theorem asDaemonSet_deployment (w : Workload) :
    asDaemonSet w.deployment =
      object .daemonSet
        [("metadata", w.metadata),
         ("spec",
          fields
            [("template", w.podTemplate w.deploymentContainer w.dataVolumes),
             ("selector", w.selector)])] := by
  simp [deployment_eq, asDaemonSet, object, Yaml.setKey_fields, Yaml.updateKey_fields,
    Yaml.removeKey_fields, OrderedMap.insert, OrderedMap.modify, OrderedMap.swapRemove,
    OrderedMap.splitAt?, ManifestKind.name, ManifestKind.apiVersion]

/-- A planned deployment has no status and no strategy that a daemon set would have to lose. -/
theorem toDaemonSet_deployment (w : Workload) :
    Revise.toDaemonSet w.deployment = asDaemonSet w.deployment := by
  have hKind : Revise.kindOf w.deployment = some "Deployment" := by
    simp [deployment_eq, Revise.kindOf, object, get?_fields, find?_cons, ManifestKind.name]
  rw [asDaemonSet_deployment, Revise.toDaemonSet, if_pos hKind]
  simp [deployment_eq, object, Yaml.setKey_fields, Yaml.updateKey_fields, Yaml.removeKey_fields,
    OrderedMap.insert, OrderedMap.modify, OrderedMap.swapRemove, OrderedMap.splitAt?,
    ManifestKind.name, ManifestKind.apiVersion]

/-! ### Images -/

theorem images_template {document : Yaml} {env mounts volumes : List Yaml} {ports : List Nat}
    {probe : Yaml}
    (h : document.at? ["spec", "template"] =
      some (w.podTemplate (w.container env ports probe mounts) volumes)) :
    ∀ image ∈ Revise.images document, image = w.image := by
  intro image hImage
  have hPod : document.at? ["spec", "template", "spec"] =
      (document.at? ["spec", "template"]).bind fun u => u.at? ["spec"] :=
    Yaml.at?_append document ["spec", "template"] ["spec"]
  rw [h, Option.bind_some] at hPod
  rw [Revise.images] at hImage
  split at hImage
  · rw [hPod] at hImage
    simpa [podTemplate, container, Revise.containerLists, get?_fields, find?_cons, find?_append,
      find?_listField] using hImage
  · simp at hImage

theorem images_pods (w : Workload) : ∀ image ∈ Revise.images w.pods.document, image = w.image := by
  rw [pods]
  cases w.classification.database with
  | some d => exact images_template (w.template_statefulSet d w.name)
  | none => exact images_template w.template_deployment

end Workload

/-- An object that holds no template of pods has no images. -/
theorem images_of_kind {m : Manifest} (hKind : m.document.get? "kind" = some (.str m.kind.name))
    (h : m.kind.holdsPods = false) : Revise.images m.document = [] := by
  have hWorkload : Revise.isWorkload m.document = false := by
    rw [Revise.isWorkload, Revise.kindOf, hKind, Option.bind_some, Yaml.asText?_str,
      Option.any_some]
    cases hm : m.kind <;> simp [hm, ManifestKind.holdsPods] at h ⊢ <;> decide
  rw [Revise.images, hWorkload]
  rfl

/-! ### Revised manifests -/

/-- The document of a manifest with dashes in its values, when it is a deployment. -/
def Manifest.withDashedValues (m : Manifest) : Yaml :=
  if m.kind = .deployment then dashedValues m.document else m.document

/-- A manifest in which a revision finds nothing to change but values of an environment. -/
structure Manifest.InPlace (o : Manifest.Revision) (m : Manifest) : Prop where
  placed : o.placed m.document = m.document
  images : ∀ registry, o.registry = some registry → ∀ image ∈ Revise.images m.document,
    Image.inRegistry image registry = image
  dashes : dashNames m.document = m.withDashedValues

namespace Manifest.InPlace

variable {o : Manifest.Revision} {m : Manifest} (h : m.InPlace o)
include h

theorem movedIn_eq : o.movedIn m.document = 0 := by
  rw [Revision.movedIn]
  split
  · rename_i registry hRegistry
    rw [h.placed]
    exact Revise.movedCount_eq_zero (h.images registry hRegistry)
  · rfl

theorem revised_eq : o.revised m.document = m.withDashedValues := by
  rw [Revision.revised, h.placed, ← h.dashes]
  split
  · rename_i registry hRegistry
    rw [Revise.moveImages_eq_self (h.images registry hRegistry)]
  · rfl

end Manifest.InPlace

namespace Workload

variable {w : Workload}

theorem images_manifests {m : Manifest} (hm : m ∈ w.manifests) :
    ∀ image ∈ Revise.images m.document, image = w.image := by
  by_cases hPods : m.kind.holdsPods = true
  · have hMem : m ∈ w.manifests.filter (·.kind.holdsPods) := List.mem_filter.2 ⟨hm, hPods⟩
    rw [holdsPods_manifests, List.mem_singleton] at hMem
    rw [hMem]
    exact w.images_pods
  · rw [images_of_kind (w.placed_manifests.kind m hm) (by simpa using hPods)]
    simp

theorem dashNames_pods (hName : '_' ∉ w.name.toList) :
    dashNames w.pods.document = w.pods.withDashedValues := by
  rw [pods, Manifest.withDashedValues]
  cases w.classification.database with
  | some d => exact dashNames_statefulSet hName d w.name
  | none => exact dashNames_deployment hName

theorem dashNames_manifests (hName : '_' ∉ w.name.toList) :
    ∀ m ∈ w.manifests, dashNames m.document = m.withDashedValues :=
  forall_mem_manifests (dashNames_pods hName) (dashNames_frontService hName)
    (fun _ => dashNames_configMapOf hName _) (dashNames_configMapOf hName _)
    (dashNames_ingress hName) (dashNames_volumeClaim hName)

/-- The manifests of a workload are in place for a revision with its namespace and a registry that
holds its image. -/
theorem inPlace_manifests {o : Manifest.Revision} (hSpace : o.namespace = some w.namespace)
    (hImage : ∀ registry, o.registry = some registry → Image.inRegistry w.image registry = w.image)
    (hName : '_' ∉ w.name.toList) {m : Manifest} (hm : m ∈ w.manifests) : m.InPlace o where
  placed := by
    rw [Manifest.Revision.placed, hSpace]
    exact Revise.setNamespace_eq_self (w.placed_manifests.space m hm)
  images registry hRegistry image hMem := by
    rw [images_manifests hm image hMem, hImage registry hRegistry]
  dashes := dashNames_manifests hName _ hm

end Workload

/-- The namespace of a project is in place for every revision. -/
theorem inPlace_ofNamespace (o : Manifest.Revision) {space : String} (h : '_' ∉ space.toList) :
    (Manifest.ofNamespace space).InPlace o := by
  have hKind : (Manifest.ofNamespace space).document.get? "kind" = some (.str "Namespace") := by
    simp [Manifest.ofNamespace, Workload.object, get?_fields, find?_cons, ManifestKind.name]
  refine ⟨?_, ?_, ?_⟩
  · rw [Manifest.Revision.placed]
    split
    · rw [Revise.setNamespace, Revise.kindOf, hKind, Option.bind_some, Yaml.asText?_str,
        Option.any_some]
      exact if_pos (by decide)
    · rfl
  · intro registry _ image hImage
    rw [images_of_kind hKind rfl] at hImage
    simp at hImage
  · have hDashed := Revise.dashed_eq_self h
    apply Revise.foldl_changeAt_eq_self
    simp [dashRules, reached, Manifest.ofNamespace, Workload.object, Revise.template,
      Revise.environmentValues, get?_fields, find?_cons, dashText, hDashed]

end KubeCompose
