import KubeCompose.Conversion
import KubeCompose.Proofs.Path
import KubeCompose.Proofs.Settled

/-!
# File names of manifests

The name of a file ends in the kind of its object, behind a dash, so that the kind and the stem can
be read off it and no two manifests of a plan share a file. This stays so when deployments become
daemon sets, as a plan has no daemon sets of its own.
-/

namespace KubeCompose

open KubeCompose.Path (IsName child withFileName)
open Text (cutAtLast? dropEnd?)

theorem ManifestKind.fileSuffix_inj {a b : ManifestKind} (h : a.fileSuffix = b.fileSuffix) :
    a = b := by
  cases a <;> cases b <;> first | rfl | simp [fileSuffix] at h

namespace Manifest

variable {m other : Manifest} {directory : String}

/-! ### The parts of a file name -/

/-- The name of the file of a manifest without its ending. -/
def title (m : Manifest) : String :=
  match m.kind with
  | .namespace => "namespace"
  | kind => m.stem ++ "-" ++ kind.fileSuffix

theorem fileName_eq_title (m : Manifest) : m.fileName = m.title ++ ".yaml" := by
  rw [fileName, title]
  cases m.kind <;> rfl

/-- The stem and the kind can be read off a file name: they stand on both sides of its last dash. -/
theorem cutAtLast?_fileName (m : Manifest) :
    cutAtLast? '-' m.fileName.toList =
      if m.kind = .namespace then none
      else some (m.stem.toList, (m.kind.fileSuffix ++ ".yaml").toList) := by
  have hOther : ∀ kind : ManifestKind,
      cutAtLast? '-' (m.stem ++ "-" ++ kind.fileSuffix ++ ".yaml").toList =
        some (m.stem.toList, (kind.fileSuffix ++ ".yaml").toList) := by
    intro kind
    have hChars : (m.stem ++ "-" ++ kind.fileSuffix ++ ".yaml").toList =
        m.stem.toList ++ '-' :: (kind.fileSuffix ++ ".yaml").toList := by
      simp
    have hDash : '-' ∉ (kind.fileSuffix ++ ".yaml").toList := by cases kind <;> decide
    rw [hChars, Text.cutAtLast?_append _ hDash]
  rw [fileName]
  cases hKind : m.kind with
  | «namespace» =>
    have hNone : cutAtLast? '-' "namespace.yaml".toList = none := by decide
    simpa using hNone
  | _ => exact hOther _

/-- The file of a deployment ends as such files do, and no other file does. -/
theorem dropEnd?_fileName (m : Manifest) :
    dropEnd? "-deployment.yaml".toList m.fileName.toList =
      if m.kind = .deployment then some m.stem.toList else none := by
  by_cases hKind : m.kind = .deployment
  · have hChars : m.fileName.toList = m.stem.toList ++ "-deployment.yaml".toList := by
      simp [fileName, hKind, ManifestKind.fileSuffix]
    rw [hChars, Text.dropEnd?_append, if_pos hKind]
  · rw [if_neg hKind]
    cases hDrop : dropEnd? "-deployment.yaml".toList m.fileName.toList with
    | none => rfl
    | some rest =>
      exfalso
      have hChars : m.fileName.toList = rest ++ '-' :: "deployment.yaml".toList :=
        Text.eq_append_of_dropEnd? hDrop
      have hCut := m.cutAtLast?_fileName
      rw [hChars, Text.cutAtLast?_append _ (by decide)] at hCut
      split at hCut
      · simp at hCut
      · have hSuffix : ManifestKind.deployment.fileSuffix ++ ".yaml" =
            m.kind.fileSuffix ++ ".yaml" :=
          String.toList_inj.1 (Prod.mk.inj (Option.some.inj hCut)).2
        exact hKind (ManifestKind.fileSuffix_inj (String.append_left_inj _ |>.1 hSuffix)).symm

/-- What tells the files of manifests apart: the stem and the kind, where a daemon set takes the
place of a deployment. There is one file for a namespace. -/
def slot (m : Manifest) : ManifestKind × String :=
  match m.kind with
  | .namespace => (.namespace, "")
  | .daemonSet => (.deployment, m.stem)
  | kind => (kind, m.stem)

theorem slot_eq_of_fileName (h : m.fileName = other.fileName) : m.slot = other.slot := by
  have hCut := congrArg (fun name => cutAtLast? '-' name.toList) h
  simp only [cutAtLast?_fileName] at hCut
  split at hCut
  · rename_i hKind
    split at hCut
    · rename_i hOther
      rw [slot, slot, hKind, hOther]
    · simp at hCut
  · split at hCut
    · simp at hCut
    · simp only [Option.some.injEq, Prod.mk.injEq, String.toList_inj] at hCut
      have hKind : m.kind = other.kind :=
        ManifestKind.fileSuffix_inj (String.append_left_inj _ |>.1 hCut.2)
      rw [slot, slot, hKind, hCut.1]

/-! ### File names in a directory -/

section Normal

variable (hStem : Name.normalize m.stem = m.stem)
include hStem

theorem of_mem_fileName {c : Char} (hc : c ∈ m.fileName.toList) :
    c ≠ '/' ∧ c ≠ '\x00' ∧ c ≠ '_' := by
  have hSuffix : ∀ kind : ManifestKind, ∀ d ∈ ("-" ++ kind.fileSuffix ++ ".yaml").toList,
      d ≠ '/' ∧ d ≠ '\x00' ∧ d ≠ '_' := by
    intro kind
    cases kind <;> simp [ManifestKind.fileSuffix]
  have hOther : ∀ kind : ManifestKind,
      c ∈ (m.stem ++ "-" ++ kind.fileSuffix ++ ".yaml").toList →
        c ≠ '/' ∧ c ≠ '\x00' ∧ c ≠ '_' := by
    intro kind hMem
    rw [String.append_assoc, String.append_assoc, String.toList_append, List.mem_append,
      ← String.append_assoc] at hMem
    rcases hMem with hMem | hMem
    · rw [← hStem] at hMem
      have hRange := Name.isLabelChar_range (Name.of_mem_normalize hMem)
      exact ⟨hRange.1, hRange.2.1, hRange.2.2.1⟩
    · exact hSuffix kind c hMem
  rw [fileName] at hc
  cases hKind : m.kind with
  | «namespace» =>
    rw [hKind] at hc
    have hAll : ∀ d ∈ "namespace.yaml".toList, d ≠ '/' ∧ d ≠ '\x00' ∧ d ≠ '_' := by simp
    exact hAll c hc
  | _ =>
    rw [hKind] at hc
    exact hOther _ hc

/-- The file of a manifest can be named in any directory. -/
theorem isName_fileName : IsName m.fileName := by
  have hLast : 'y' ∈ m.fileName.toList := by
    rw [fileName_eq_title]
    simp
  have hNe : ∀ s : String, 'y' ∉ s.toList → m.fileName ≠ s := by
    rintro s hs rfl
    exact hs hLast
  refine ⟨fun hMem => ?_, fun hMem => ?_, ?_, hNe _ (by decide), ?_⟩
  · exact (of_mem_fileName hStem hMem).1 rfl
  · exact (of_mem_fileName hStem hMem).2.1 rfl
  · simp [Path.isIdle, hNe "" (by decide), hNe "." (by decide)]
  · have hSize := Name.utf8ByteSize_normalize m.stem
    have hSuffix : ∀ kind : ManifestKind, kind.fileSuffix.utf8ByteSize ≤ 11 := by
      intro kind
      cases kind <;> decide
    have hOther : ∀ kind : ManifestKind,
        (m.stem ++ "-" ++ kind.fileSuffix ++ ".yaml").utf8ByteSize ≤ Path.pieceLimit := by
      intro kind
      have hKind := hSuffix kind
      have hDash : "-".utf8ByteSize = 1 := rfl
      have hEnd : ".yaml".utf8ByteSize = 5 := rfl
      rw [hStem] at hSize
      simp only [String.utf8ByteSize_append, Name.maxLength, Path.pieceLimit] at hSize ⊢
      omega
    rw [fileName]
    cases hKind : m.kind with
    | «namespace» =>
      have hSize : "namespace.yaml".utf8ByteSize ≤ Path.pieceLimit := by decide
      exact hSize
    | _ => exact hOther _

theorem fileName?_fileName (hDirectory : directory ≠ "") :
    Path.fileName? (child directory m.fileName) = some m.fileName := by
  obtain ⟨first, middle, hBase⟩ :=
    List.exists_cons_of_ne_nil (Path.pieces_ne_nil (Path.base directory))
  exact Path.fileName?_child hDirectory (isName_fileName hStem) hBase

theorem isManifestName_fileName (hDirectory : directory ≠ "") :
    isManifestName (child directory m.fileName) = true := by
  have hChars : m.fileName.toList = m.title.toList ++ '.' :: "yaml".toList := by
    simp [fileName_eq_title]
  have hCut : cutAtLast? '.' m.fileName.toList = some (m.title.toList, "yaml".toList) := by
    rw [hChars, Text.cutAtLast?_append _ (by decide)]
  have hTitle : m.title.toList ≠ [] := by
    rw [title]
    cases m.kind <;> simp
  have hExtension : Path.extension? (child directory m.fileName) = some "yaml" := by
    rw [Path.extension?, fileName?_fileName hStem hDirectory, Option.bind_some, hCut]
    cases h : m.title.toList with
    | nil => exact absurd h hTitle
    | cons c r => simp
  rw [isManifestName, hExtension]
  rfl

/-- The file of a deployment that is to run on every node is given to its daemon set. -/
theorem daemonPath?_fileName (o : Revision) (hDirectory : directory ≠ "") :
    o.daemonPath? (child directory m.fileName) =
      if m.kind = .deployment ∧ o.isDaemon m.stem = true then
        some (withFileName (child directory m.fileName) (m.stem ++ "-daemonset.yaml"))
      else none := by
  rw [Revision.daemonPath?, fileName?_fileName hStem hDirectory, Option.bind_some,
    dropEnd?_fileName]
  by_cases hKind : m.kind = .deployment
  · simp [hKind]
  · simp [hKind]

end Normal

end Manifest

/-! ### What a conversion leaves of a plan -/

namespace ConvertOptions

variable {o : ConvertOptions} {m : Manifest}

/-- Whether a service with the given name is to run on every node. -/
def runsEverywhere (o : ConvertOptions) (name : String) : Bool :=
  o.daemonServices.any fun service => Name.normalize service == name

/-- What a conversion leaves of a planned manifest: values without underscores, and a daemon set
where a deployment is to run on every node. -/
def settled (o : ConvertOptions) (m : Manifest) : Manifest :=
  if m.kind = .deployment ∧ o.runsEverywhere m.stem = true then
    ⟨.daemonSet, m.stem, Revise.asDaemonSet m.withDashedValues⟩
  else { m with document := m.withDashedValues }

/-- A revision knows the services that are to run on every node. -/
theorem isDaemon_revision (space : String) {name : String} (h : Name.normalize name = name) :
    (o.revision space).isDaemon name = o.runsEverywhere name := by
  rw [Bool.eq_iff_iff, Manifest.Revision.isDaemon, h, Bool.or_self, runsEverywhere]
  simp only [revision, List.contains_iff_mem, List.mem_flatMap, List.mem_cons, List.not_mem_nil,
    or_false, List.any_eq_true, beq_iff_eq]
  constructor
  · rintro ⟨service, hService, rfl | hName⟩
    · exact ⟨name, hService, h⟩
    · exact ⟨service, hService, hName.symm⟩
  · rintro ⟨service, hService, hName⟩
    exact ⟨service, hService, .inr hName.symm⟩

@[simp] theorem stem_settled (o : ConvertOptions) (m : Manifest) : (o.settled m).stem = m.stem := by
  rw [settled]
  split <;> rfl

/-- A daemon set keeps the slot of its deployment. -/
theorem slot_settled (o : ConvertOptions) (m : Manifest) : (o.settled m).slot = m.slot := by
  rw [settled]
  split
  · rename_i h
    rw [Manifest.slot, Manifest.slot, h.1]
  · rfl

/-- The file of a daemon set has a shorter name than that of its deployment. -/
theorem utf8ByteSize_fileName_settled (o : ConvertOptions) (m : Manifest) :
    (o.settled m).fileName.utf8ByteSize ≤ m.fileName.utf8ByteSize := by
  rw [settled]
  split
  · rename_i h
    have hLess : ManifestKind.daemonSet.fileSuffix.utf8ByteSize ≤
        ManifestKind.deployment.fileSuffix.utf8ByteSize := by
      decide
    simp only [Manifest.fileName, h.1, String.utf8ByteSize_append]
    omega
  · exact Nat.le_refl _

section DaemonSet

variable (h : m.kind = .deployment ∧ o.runsEverywhere m.stem = true)
include h

theorem fileName_settled : (o.settled m).fileName = m.stem ++ "-daemonset.yaml" := by
  rw [settled, if_pos h]
  simp [← String.toList_inj, Manifest.fileName, ManifestKind.fileSuffix]

theorem fileName_settled_ne : (o.settled m).fileName ≠ m.fileName := by
  have hOld : m.fileName = m.stem ++ "-deployment.yaml" := by
    simp [← String.toList_inj, Manifest.fileName, h.1, ManifestKind.fileSuffix]
  rw [fileName_settled h, hOld, ne_eq, String.append_right_inj]
  decide

end DaemonSet

end ConvertOptions

/-! ### The slots of a plan -/

namespace Workload

variable {w : Workload} {m : Manifest}

theorem stem_of_mem_manifests (h : m ∈ w.manifests) : m.stem = w.name := by
  have hAll : ∀ m ∈ w.manifests, m.stem = w.name := by
    rw [manifests]
    cases w.classification.database <;> cases w.environment.isEmpty <;>
      cases w.classification.needsIngress <;> cases w.classification.needsClaim <;> simp
  exact hAll m h

/-- The kinds of a workload's manifests differ, and none is that of a namespace or a daemon set. -/
theorem nodup_kinds_manifests (w : Workload) :
    (w.manifests.map (·.kind)).Nodup ∧
      ∀ m ∈ w.manifests, m.kind ≠ .namespace ∧ m.kind ≠ .daemonSet := by
  rw [manifests]
  cases w.classification.database <;> cases w.environment.isEmpty <;>
    cases w.classification.needsIngress <;> cases w.classification.needsClaim <;> simp

theorem slot_of_mem_manifests (h : m ∈ w.manifests) : m.slot = (m.kind, w.name) := by
  obtain ⟨hSpace, hDaemon⟩ := w.nodup_kinds_manifests.2 m h
  rw [Manifest.slot, stem_of_mem_manifests h]
  cases hKind : m.kind with
  | «namespace» => exact absurd hKind hSpace
  | daemonSet => exact absurd hKind hDaemon
  | _ => rfl

theorem nodup_slots_manifests (w : Workload) : (w.manifests.map Manifest.slot).Nodup := by
  have hSlots : w.manifests.map Manifest.slot =
      (w.manifests.map (·.kind)).map fun kind => (kind, w.name) := by
    rw [List.map_map]
    exact List.map_congr_left fun m hm => slot_of_mem_manifests hm
  rw [hSlots]
  exact w.nodup_kinds_manifests.1.map fun a b hab => (Prod.mk.inj hab).1

end Workload

section Plan

variable {settings : Settings} {options : ConvertOptions}
  {services : OrderedMap String Compose.Service} {vars : DotEnv} {plan : Plan} {space : String}
  (h : Planned settings options services vars space plan)
include h

/-- A planned manifest is the namespace, or belongs to the workload of a service. -/
theorem Planned.mem_manifests {m : Manifest} (hm : m ∈ plan.manifests) :
    m = .ofNamespace space ∨
      ∃ e ∈ services,
        m ∈ (workloadOf settings options vars (Name.normalize e.1) space e.2).manifests := by
  rw [Plan.manifests, h.namespace_eq, h.services_eq, List.flatMap_map, List.mem_cons,
    List.mem_flatMap] at hm
  exact hm

/-- No two manifests of a plan share a slot. -/
theorem Planned.nodup_slots : (plan.manifests.map Manifest.slot).Nodup := by
  have hServices : plan.services.flatMap (·.2) = services.flatMap fun e =>
      (workloadOf settings options vars (Name.normalize e.1) space e.2).manifests := by
    rw [h.services_eq, List.flatMap_map]
    rfl
  rw [Plan.manifests, h.namespace_eq, hServices, List.map_cons, List.nodup_cons, List.map_flatMap]
  constructor
  · intro hMem
    obtain ⟨e, -, hSlot⟩ := List.mem_flatMap.1 hMem
    obtain ⟨m, hm, hSlot⟩ := List.mem_map.1 hSlot
    rw [Workload.slot_of_mem_manifests hm] at hSlot
    exact ((Workload.nodup_kinds_manifests _).2 m hm).1 (Prod.mk.inj hSlot).1
  · refine List.nodup_flatMap.2 ⟨fun e _ => Workload.nodup_slots_manifests _, ?_⟩
    have hDistinct := h.distinct
    rw [OrderedMap.keys, List.map_map, List.Nodup, List.pairwise_map] at hDistinct
    refine hDistinct.imp fun {d e} hNames => ?_
    intro slot hd he
    obtain ⟨m, hm, rfl⟩ := List.mem_map.1 hd
    obtain ⟨n, hn, hSlot⟩ := List.mem_map.1 he
    rw [Workload.slot_of_mem_manifests hm, Workload.slot_of_mem_manifests hn] at hSlot
    exact hNames (Prod.mk.inj hSlot).2.symm

end Plan

end KubeCompose
