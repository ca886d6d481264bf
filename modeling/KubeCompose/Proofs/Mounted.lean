import KubeCompose.Proofs.Links

/-!
# Which claims are mounted

A service gets a claim for its data when one of its volumes has a name. What runs in it and where
the volume belongs in the container are not asked. But the pods have the claim as a volume only when
the service is no database, whose pods each get a claim of their own, and when a named volume has a
path in the container. `mounts_iff_of_mem_volumeClaim` says so of every service that gets a claim.
-/

namespace KubeCompose

open Compose (Service)
open Manifest (ofKind)
open OrderedMap (find?_cons)
open Yaml (fields get?_fields itemsAt)

/-- Whether a claim is a volume of the pods, and one of their containers mounts this volume. -/
def Manifest.Mounts (pods claim : Manifest) : Prop :=
  ∃ volume ∈ pods.volumes, ∃ mount ∈ pods.mounts, ∃ name,
    volume.get? "name" = some name ∧ mount.get? "name" = some name ∧
      ∃ object, volume.at? ["persistentVolumeClaim", "claimName"] = some object ∧
        claim.objectName? = some object

/-- Whether the pods mount a claim that is made for each of them from the one template of their
workload, and nothing else. -/
def Manifest.MountsOwn (pods : Manifest) (path : String) : Prop :=
  ∃ template mount,
    pods.document.itemsAt ["spec", "volumeClaimTemplates"] = [template] ∧
      pods.mounts = [mount] ∧
      template.get? "kind" = some (.str ManifestKind.volumeClaim.name) ∧
      mount.get? "mountPath" = some (.str path) ∧
      ∃ name, template.at? ["metadata", "name"] = some name ∧ mount.get? "name" = some name

/-- The path of the first named volume that has one in the container. -/
def Compose.Service.dataPath? (s : Service) : Option String :=
  (s.volumes.filter (·.isNamed)).findSome? (·.containerPath?)

theorem Compose.Service.isSome_dataPath?_iff (s : Service) :
    s.dataPath?.isSome = true ↔
      ∃ v ∈ s.volumes, v.isNamed = true ∧ v.containerPath?.isSome = true := by
  rw [dataPath?, List.findSome?_isSome_iff]
  simp [and_assoc]

namespace Workload

variable {w : Workload}

theorem dataPath?_of_needsClaim (h : w.classification.needsClaim = true) :
    w.dataPath? = w.service.dataPath? := by
  rw [dataPath?, if_pos h, Service.dataPath?]

/-! ### The volumes and the mounts of the pods -/

theorem volumes_pods_of_database {d : Database} (h : w.classification.database = some d) :
    w.pods.volumes = [] := by
  rw [pods, h]
  exact volumes_template (w.template_statefulSet d w.name)

theorem volumes_pods_of_none (h : w.classification.database = none) :
    w.pods.volumes = w.dataVolumes := by
  rw [pods, h]
  exact volumes_template w.template_deployment

theorem mounts_pods_of_none (h : w.classification.database = none) :
    w.pods.mounts = w.dataMounts := by
  rw [pods, h]
  exact mounts_template w.template_deployment

/-- The pods of a database mount a claim of their own where the database keeps its data. -/
theorem mountsOwn_pods {d : Database} (h : w.classification.database = some d) :
    w.pods.MountsOwn d.mountPath := by
  have hTemplates : ∃ template,
      (w.statefulSet d w.name).itemsAt ["spec", "volumeClaimTemplates"] = [template] ∧
        template.get? "kind" = some (.str ManifestKind.volumeClaim.name) ∧
        template.at? ["metadata", "name"] = some (.str dataVolume) := by
    refine ⟨_, by simp [statefulSet, object, itemsAt, get?_fields, find?_cons]; rfl, ?_, ?_⟩
    · simp [get?_fields, find?_cons]
    · simp [get?_fields, find?_cons]
  obtain ⟨template, hTemplate, hKind, hName⟩ := hTemplates
  rw [pods, h]
  exact ⟨template, _, hTemplate, mounts_template (w.template_statefulSet d w.name), hKind,
    by simp [dataMount, get?_fields, find?_cons], _, hName, name_dataMount d.mountPath⟩

theorem objectName?_volumeClaim (w : Workload) :
    Manifest.objectName? ⟨.volumeClaim, w.name, w.volumeClaim⟩ =
      some (.str (claimName w.name)) := by
  simp [Manifest.objectName?, volumeClaim, object, metadataNamed, get?_fields, find?_cons]

/-- Where the data has a path, the claim is a volume of the pods and mounted there. -/
theorem mounts_of_dataPath? {path : String} (hDatabase : w.classification.database = none)
    (hPath : w.dataPath? = some path) :
    w.pods.Mounts ⟨.volumeClaim, w.name, w.volumeClaim⟩ := by
  have hVolumes : w.pods.volumes =
      [fields
        [("name", .str dataVolume),
         ("persistentVolumeClaim", fields [("claimName", .str (claimName w.name))])]] := by
    rw [volumes_pods_of_none hDatabase, dataVolumes, hPath, Option.map_some, Option.toList_some]
  have hMounts : w.pods.mounts = [dataMount path] := by
    rw [mounts_pods_of_none hDatabase, dataMounts, hPath, Option.map_some, Option.toList_some]
  rw [Manifest.Mounts, hVolumes, hMounts]
  refine ⟨_, List.mem_singleton_self _, _, List.mem_singleton_self _, .str dataVolume, ?_,
    name_dataMount path, .str (claimName w.name), ?_, w.objectName?_volumeClaim⟩
  · simp [get?_fields, find?_cons]
  · simp [get?_fields, find?_cons]

/-- A claim is mounted exactly when the service is no database and its data has a path; otherwise
the pods have no volumes. -/
theorem mounts_iff (h : w.classification.needsClaim = true) :
    (w.pods.Mounts ⟨.volumeClaim, w.name, w.volumeClaim⟩ ↔
        w.classification.database = none ∧ w.service.dataPath?.isSome = true) ∧
      (¬ w.pods.Mounts ⟨.volumeClaim, w.name, w.volumeClaim⟩ → w.pods.volumes = []) := by
  have hNone : w.pods.volumes = [] →
      ¬ w.pods.Mounts ⟨.volumeClaim, w.name, w.volumeClaim⟩ := by
    rintro hVolumes ⟨volume, hMem, -⟩
    rw [hVolumes] at hMem
    exact List.not_mem_nil hMem
  rw [← dataPath?_of_needsClaim h]
  cases hDatabase : w.classification.database with
  | some d =>
    have hVolumes := volumes_pods_of_database hDatabase
    exact ⟨by simp [hNone hVolumes], fun _ => hVolumes⟩
  | none =>
    cases hPath : w.dataPath? with
    | some path =>
      have hMounts := mounts_of_dataPath? hDatabase hPath
      exact ⟨by simp [hMounts], fun hNot => absurd hMounts hNot⟩
    | none =>
      have hVolumes : w.pods.volumes = [] := by
        rw [volumes_pods_of_none hDatabase, dataVolumes, hPath]
        rfl
      exact ⟨by simp [hNone hVolumes], fun _ => hVolumes⟩

end Workload

/-! ### The claims of a service -/

variable (settings : Settings) (options : ConvertOptions) (vars : DotEnv) (name space : String)
  {s : Service}

/-- A service gets one claim when one of its volumes has a name, and none otherwise. -/
theorem volumeClaims_workloadOf :
    ofKind (workloadOf settings options vars name space s).manifests .volumeClaim =
      if ∃ v ∈ s.volumes, v.isNamed = true then
        [⟨.volumeClaim, name, (workloadOf settings options vars name space s).volumeClaim⟩]
      else [] := by
  have hNeeds : (workloadOf settings options vars name space s).classification.needsClaim =
      s.volumes.any (·.isNamed) := rfl
  have hName : (workloadOf settings options vars name space s).name = name := rfl
  rw [Workload.ofKind_volumeClaim, Workload.volumeClaims, hNeeds, hName]
  exact if_congr List.any_eq_true rfl rfl

/-- The claim of a service is a volume of its pods, mounted at the path of the first named volume
that has one, exactly when the service is no database and there is such a volume. The pods beside a
claim that they do not mount have no volumes; those of a database mount a claim of their own. -/
theorem mounts_iff_of_mem_volumeClaim {m : Manifest}
    (h : m ∈ ofKind (workloadOf settings options vars name space s).manifests .volumeClaim) :
    (∃ v ∈ s.volumes, v.isNamed = true) ∧
      m.objectName? = some (.str (Workload.claimName name)) ∧
      ∃ pods, (workloadOf settings options vars name space s).manifests.filter
          (·.kind.holdsPods) = [pods] ∧
        (pods.Mounts m ↔
          Database.ofImage? s.imageLower = none ∧
            ∃ v ∈ s.volumes, v.isNamed = true ∧ v.containerPath?.isSome = true) ∧
        (pods.Mounts m →
          pods.mounts.map (·.get? "mountPath") = [s.dataPath?.map Yaml.str]) ∧
        (¬ pods.Mounts m → pods.volumes = []) ∧
        ∀ d, Database.ofImage? s.imageLower = some d → pods.MountsOwn d.mountPath := by
  have hNamed : ∃ v ∈ s.volumes, v.isNamed = true := by
    by_contra hNone
    rw [volumeClaims_workloadOf, if_neg hNone] at h
    exact List.not_mem_nil h
  rw [volumeClaims_workloadOf, if_pos hNamed, List.mem_singleton] at h
  subst h
  have hNeeds : (workloadOf settings options vars name space s).classification.needsClaim = true :=
    List.any_eq_true.2 hNamed
  obtain ⟨hIff, hOtherwise⟩ := Workload.mounts_iff hNeeds
  have hPath : (workloadOf settings options vars name space s).dataPath? = s.dataPath? :=
    Workload.dataPath?_of_needsClaim hNeeds
  have hDatabase : (workloadOf settings options vars name space s).classification.database =
      Database.ofImage? s.imageLower :=
    (coherent_workloadOf settings options vars name space s).database
  refine ⟨hNamed, Workload.objectName?_volumeClaim _, _, Workload.holdsPods_manifests _, ?_, ?_,
    hOtherwise, fun d hOwn => Workload.mountsOwn_pods (hDatabase.trans hOwn)⟩
  · rw [← hDatabase, ← s.isSome_dataPath?_iff]
    exact hIff
  · intro hMounts
    obtain ⟨hNone, hSome⟩ := hIff.1 hMounts
    obtain ⟨path, hData⟩ := Option.isSome_iff_exists.1 hSome
    rw [Workload.mounts_pods_of_none hNone, Workload.dataMounts, hPath]
    change s.dataPath? = some path at hData
    simp [hData, Workload.dataMount, get?_fields, find?_cons]

/-! ### A claim that is mounted, and claims that are not -/

/-- A service with an image and the given volumes. -/
def keepingService (image : String) (volumes : List String) : Service :=
  { Service.empty "shop" with image := some image, volumes := volumes.map .short }

/-- What the objects of this service depend on. -/
def keepingWorkload (image : String) (volumes : List String) : Workload :=
  workloadOf .standard .standard [] "shop" "default" (keepingService image volumes)

/-- The claim of this service. -/
def keptClaim (image : String) (volumes : List String) : Manifest :=
  ⟨.volumeClaim, "shop", (keepingWorkload image volumes).volumeClaim⟩

theorem keptClaim_mem {image : String} {volumes : List String}
    (h : ∃ v ∈ (keepingService image volumes).volumes, v.isNamed = true) :
    keptClaim image volumes ∈ ofKind (keepingWorkload image volumes).manifests .volumeClaim := by
  rw [keepingWorkload, volumeClaims_workloadOf, if_pos h]
  exact List.mem_singleton_self _

/-- A web server mounts its claim, and a database one of its own in place of it. -/
theorem mounts_iff_of_mem_volumeClaim_pages :
    let pages := ["./src:/src", "cache", "pages:/usr/share/nginx/html"]
    let orders := ["orders:/var/lib/mysql"]
    keptClaim "nginx" pages ∈ ofKind (keepingWorkload "nginx" pages).manifests .volumeClaim ∧
      (∃ pods, (keepingWorkload "nginx" pages).manifests.filter (·.kind.holdsPods) = [pods] ∧
        pods.Mounts (keptClaim "nginx" pages) ∧
        pods.mounts.map (·.get? "mountPath") = [some (.str "/usr/share/nginx/html")]) ∧
      keptClaim "mysql:8" orders ∈
        ofKind (keepingWorkload "mysql:8" orders).manifests .volumeClaim ∧
      ∃ pods, (keepingWorkload "mysql:8" orders).manifests.filter (·.kind.holdsPods) = [pods] ∧
        ¬ pods.Mounts (keptClaim "mysql:8" orders) ∧ pods.MountsOwn "/var/lib/mysql" := by
  intro pages orders
  have hPages : keptClaim "nginx" pages ∈
      ofKind (keepingWorkload "nginx" pages).manifests .volumeClaim := keptClaim_mem (by decide)
  have hOrders : keptClaim "mysql:8" orders ∈
      ofKind (keepingWorkload "mysql:8" orders).manifests .volumeClaim := keptClaim_mem (by decide)
  obtain ⟨-, -, pods, hPods, hIff, hPath, -⟩ :=
    mounts_iff_of_mem_volumeClaim .standard .standard [] "shop" "default" hPages
  obtain ⟨-, -, others, hOthers, hNever, -, -, hOwn⟩ :=
    mounts_iff_of_mem_volumeClaim .standard .standard [] "shop" "default" hOrders
  have hMounts := hIff.2 ⟨by decide, by decide⟩
  have hData : (keepingService "nginx" pages).dataPath? = some "/usr/share/nginx/html" := by
    decide
  rw [hData] at hPath
  refine ⟨hPages, ⟨pods, hPods, hMounts, hPath hMounts⟩, hOrders, others, hOthers, ?_, ?_⟩
  · intro hTheirs
    exact absurd (hNever.1 hTheirs).1 (by decide)
  · exact hOwn .mysql (by decide)

/-- The claim of a database with a named volume is mounted by nothing. -/
theorem not_mounts_of_database :
    let volumes := ["orders:/var/lib/mysql"]
    keptClaim "mysql:8" volumes ∈
        ofKind (keepingWorkload "mysql:8" volumes).manifests .volumeClaim ∧
      ∀ pods ∈ (keepingWorkload "mysql:8" volumes).manifests.filter (·.kind.holdsPods),
        ¬ pods.Mounts (keptClaim "mysql:8" volumes) := by
  intro volumes
  refine ⟨keptClaim_mem (by decide), fun pods hPods => ?_⟩
  rw [Workload.holdsPods_manifests, List.mem_singleton] at hPods
  have hDatabase : (keepingWorkload "mysql:8" volumes).classification.database = some .mysql := by
    decide
  have hNeeds : (keepingWorkload "mysql:8" volumes).classification.needsClaim = true := by decide
  rw [hPods]
  intro hMounts
  have hNone := ((Workload.mounts_iff hNeeds).1.1 hMounts).1
  rw [hDatabase] at hNone
  exact absurd hNone (by simp)

end KubeCompose
