import KubeCompose.Proofs.Written

/-!
# Manifests that stay apart

No manifest of a plan takes the place of another one: their files have different names, also when
deployments become daemon sets, and their objects differ in their kind or their name. So a
conversion into an empty directory leaves one manifest for each that was planned. It stops at the
first path that is too long for the system, and leaves the files that it has written until then.
-/

namespace KubeCompose

open OrderedMap (keys)
open KubeCompose.Path (child)
open Workspace (Filled)

/-! ### Names of files and objects -/

namespace Manifest

variable {m other : Manifest} {set : List Manifest}

/-- The name of a file when the deployments of the chosen stems have become daemon sets. -/
def daemonSetName (chosen : String → Bool) (name : String) : String :=
  match Text.dropEnd? "-deployment.yaml".toList name.toList with
  | none => name
  | some stem =>
    if chosen (String.ofList stem) then String.ofList stem ++ "-daemonset.yaml" else name

/-- A revision chooses the deployments of the services that are to run on every node. -/
theorem Revision.destination_eq (o : Revision) (name : String) :
    o.destination name = daemonSetName o.isDaemon name := by
  rw [destination, daemonName?, daemonSetName]
  cases Text.dropEnd? "-deployment.yaml".toList name.toList with
  | none => rfl
  | some stem =>
    simp only
    split <;> rfl

/-- The chosen file is that of a manifest with the same slot. -/
theorem exists_daemonSetName (chosen : String → Bool) (m : Manifest) :
    ∃ left : Manifest, left.fileName = daemonSetName chosen m.fileName ∧ left.slot = m.slot := by
  rw [daemonSetName, dropEnd?_fileName]
  by_cases hKind : m.kind = .deployment
  · by_cases hChosen : chosen m.stem = true
    · refine ⟨{ m with kind := .daemonSet }, ?_, by rw [slot, slot, hKind]⟩
      simp [← String.toList_inj, hKind, hChosen, fileName, ManifestKind.fileSuffix]
    · exact ⟨m, by simp [hKind, hChosen], rfl⟩
  · exact ⟨m, by simp [hKind], rfl⟩

/-- What differs for different slots differs for all of a list in which no two share a slot. -/
theorem nodup_map_of_slot {α : Type} {f : Manifest → α} (hApart : (set.map slot).Nodup)
    (h : ∀ m ∈ set, ∀ n ∈ set, f m = f n → m.slot = n.slot) : (set.map f).Nodup :=
  hApart.of_map.map_on fun m hm n hn hSame =>
    List.inj_on_of_nodup_map hApart hm hn (h m hm n hn hSame)

/-- The kind and the name that the document of an object gives. -/
def identity (m : Manifest) : Option Yaml × Option String := (m.document.get? "kind", m.name?)

theorem identity_ofNamespace (space : String) :
    (ofNamespace space).identity = (some (.str ManifestKind.namespace.name), some space) := by
  rw [identity, name?_ofNamespace]
  simp [ofNamespace, Workload.object, Yaml.get?_fields, OrderedMap.find?_cons]

end Manifest

theorem ManifestKind.name_inj {a b : ManifestKind} (h : a.name = b.name) : a = b := by
  cases a <;> cases b <;> first | rfl | simp [name] at h

namespace Workload

variable {w : Workload} {m : Manifest}

/-- The name of the object of a kind; the claim for the data has one of its own. -/
def objectName (w : Workload) (kind : ManifestKind) : String :=
  if kind = .volumeClaim then claimName w.name else w.name

/-- For each kind, the name of the object tells the workload. -/
theorem name_eq_of_objectName {other : Workload} {kind : ManifestKind}
    (h : w.objectName kind = other.objectName kind) : w.name = other.name := by
  rw [objectName, objectName] at h
  split at h
  · exact String.append_left_inj _ |>.1 h
  · exact h

theorem identity_of_mem_manifests (hm : m ∈ w.manifests) :
    m.identity = (some (.str m.kind.name), some (w.objectName m.kind)) := by
  rw [Manifest.identity, w.placed_manifests.kind m hm, objectName]
  by_cases hKind : m.kind = .volumeClaim
  · have hClaim : m ∈ w.volumeClaims := by
      rw [← ofKind_volumeClaim]
      exact List.mem_filter.2 ⟨hm, by simp [hKind]⟩
    rw [volumeClaims] at hClaim
    split at hClaim
    · rw [List.mem_singleton.1 hClaim]
      simp [Manifest.name?, volumeClaim, object, metadataNamed, Yaml.get?_fields,
        OrderedMap.find?_cons]
    · exact absurd hClaim List.not_mem_nil
  · have hName := w.placed_manifests.name m hm hKind
    rw [Manifest.objectName?] at hName
    simp [Manifest.name?, hName, hKind]

end Workload

section Plan

variable {settings : Settings} {options : ConvertOptions}
  {services : OrderedMap String Compose.Service} {vars : DotEnv} {plan : Plan} {space : String}
  (h : Planned settings options services vars space plan)
include h

/-- Planned objects that share their kind and their name share their slot. -/
theorem Planned.slot_eq_of_identity {m n : Manifest} (hm : m ∈ plan.manifests)
    (hn : n ∈ plan.manifests) (hSame : m.identity = n.identity) : m.slot = n.slot := by
  -- no object of a service is a namespace
  have hOther : ∀ (w : Workload) (k : Manifest), k ∈ w.manifests →
      k.identity ≠ (Manifest.ofNamespace space).identity := by
    intro w k hk hEq
    rw [Workload.identity_of_mem_manifests hk, Manifest.identity_ofNamespace, Prod.mk.injEq,
      Option.some.injEq, Yaml.str.injEq] at hEq
    exact ((w.nodup_kinds_manifests).2 k hk).1 (ManifestKind.name_inj hEq.1)
  rcases h.mem_manifests hm with rfl | ⟨d, -, hd⟩
  · rcases h.mem_manifests hn with rfl | ⟨e, -, he⟩
    · rfl
    · exact absurd hSame.symm (hOther _ n he)
  · rcases h.mem_manifests hn with rfl | ⟨e, -, he⟩
    · exact absurd hSame (hOther _ m hd)
    · rw [Workload.identity_of_mem_manifests hd, Workload.identity_of_mem_manifests he,
        Prod.mk.injEq, Option.some.injEq, Yaml.str.injEq, Option.some.injEq] at hSame
      have hKind := ManifestKind.name_inj hSame.1
      rw [hKind] at hSame
      rw [Workload.slot_of_mem_manifests hd, Workload.slot_of_mem_manifests he, hKind,
        Workload.name_eq_of_objectName hSame.2]

theorem Planned.nodup_fileNames : (plan.manifests.map (·.fileName)).Nodup :=
  Manifest.nodup_map_of_slot h.nodup_slots fun _ _ _ _ => Manifest.slot_eq_of_fileName

/-- The files have different names, whatever deployments become daemon sets. -/
theorem Planned.nodup_daemonSetNames (chosen : String → Bool) :
    (plan.manifests.map fun m => Manifest.daemonSetName chosen m.fileName).Nodup := by
  refine Manifest.nodup_map_of_slot h.nodup_slots fun m _ n _ hSame => ?_
  obtain ⟨left, hLeft, hSlot⟩ := Manifest.exists_daemonSetName chosen m
  obtain ⟨other, hOther, hSlot'⟩ := Manifest.exists_daemonSetName chosen n
  rw [← hSlot, ← hSlot']
  exact Manifest.slot_eq_of_fileName (hLeft.trans (hSame.trans hOther.symm))

theorem Planned.nodup_identities : (plan.manifests.map Manifest.identity).Nodup :=
  Manifest.nodup_map_of_slot h.nodup_slots fun _ hm _ hn => h.slot_eq_of_identity hm hn

end Plan

/-! ### An empty directory -/

section Empty

variable {settings : Settings} {options : ConvertOptions} {p : Compose.Project} {vars : DotEnv}
  {plan : Plan} {space directory : String} {l : Location} {w v : Workspace} {m : Manifest}
  {set rest : List Manifest} {kept copy : OrderedMap String Entry}

namespace Workspace

/-- A path leads to a directory that holds nothing. -/
structure Empty (w : Workspace) (directory : String) (l : Location) : Prop where
  leads : w.LeadsTo directory l
  entries_eq : w.entries l = []

theorem exists_empty (hThere : w.isDirectory directory = true) (hNone : w.list directory = []) :
    ∃ l, w.Empty directory l := by
  obtain ⟨l, hLeads⟩ := exists_leadsTo hThere
  exact ⟨l, hLeads, List.nil_perm.1 (hNone ▸ list_of_leadsTo hLeads)⟩

namespace Empty

variable (h : w.Empty directory l)
include h

theorem filled : Filled w directory l [] w := by
  have hStart := Filled.start h.leads (by rw [h.entries_eq]; exact List.nodup_nil)
  rwa [h.entries_eq] at hStart

theorem nonempty : directory ≠ "" := (leadsTo_iff.1 h.leads).2.1

theorem list_eq_nil : w.list directory = [] := by
  have hPerm := list_of_leadsTo h.leads
  rw [h.entries_eq] at hPerm
  exact List.perm_nil.1 hPerm

theorem prepareDirectory_eq_ok : prepareDirectory directory w = (.ok (), w) :=
  prepareDirectory_of_isDirectory (isDirectory_of_leadsTo h.leads)

end Empty

end Workspace

/-- The copy of the variables is in the way of no manifest. -/
theorem Manifest.standing_of_copied (hPlanned : Planned settings options p.services vars space plan)
    (hShort : ∀ m ∈ plan.manifests, (child directory m.fileName).utf8ByteSize ≤ Path.lengthLimit)
    (hCopied : Copied p w copy) : Standing options space directory copy plan.manifests where
  ready := hPlanned.ready
  short := hShort
  apart := hPlanned.nodup_slots
  directories m _ := by
    have hDirectories := directories_of_copied hCopied (List.forall_mem_nil _) (options.settled m)
    rwa [List.append_nil] at hDirectories

/-- A manifest whose path is too long is not written. -/
theorem Manifest.writeTo_of_long
    (hLong : Path.lengthLimit < (child directory m.fileName).utf8ByteSize) (w : Workspace) :
    ∃ e, m.writeTo directory w = (.error e, w) := by
  rw [writeTo]
  cases m.document.write.mapError ConversionError.notWritable with
  | error e => exact ⟨e, Action.bind_of_error rfl⟩
  | ok text =>
    have hAsk : Action.ask (fun _ => .ok text) w = (Except.ok (ε := ConversionError) text, w) := rfl
    rw [Action.bind_of_ok hAsk]
    cases hWrite : w.write (child directory m.fileName) text.toUTF8 with
    | error e =>
      exact ⟨.file e, Action.bind_of_error (by rw [Action.change, hWrite]; rfl)⟩
    | ok v =>
      obtain ⟨place, -, hPlace, -⟩ := Workspace.of_write hWrite
      obtain ⟨-, -, hShort, -⟩ := Workspace.place_eq_ok_iff.1 hPlace
      exact absurd hShort (Nat.not_le.2 hLong)

/-- Manifests are written up to one whose path is too long. -/
theorem Manifest.mapM_writeTo_of_long (rest : List Manifest)
    (hReady : ∀ m ∈ set, m.Ready options space)
    (hShort : ∀ m ∈ set, (child directory m.fileName).utf8ByteSize ≤ Path.lengthLimit)
    (hApart : (set.map slot).Nodup) (hFilled : Filled w directory l kept v)
    (hNew : ∀ m ∈ set, m.fileName ∉ keys kept)
    (hLong : Path.lengthLimit < (child directory m.fileName).utf8ByteSize) :
    ∃ e u,
      ((set ++ m :: rest).mapM fun m => m.writeTo directory :
        Action ConversionError (List String)) v = (.error e, u) ∧
      Filled w directory l (set.map entry ++ kept) u := by
  obtain ⟨written, u, hWrite, hAll⟩ := mapM_writeTo hReady hShort hApart hFilled hNew
  obtain ⟨e, hStop⟩ := writeTo_of_long hLong u
  refine ⟨e, u, ?_, hAll⟩
  rw [List.mapM_append, Action.bind_of_ok hWrite, List.mapM_cons]
  exact Action.bind_of_error (Action.bind_of_error hStop)

section Conversion

variable (hEmpty : w.Empty directory l)
include hEmpty

theorem copyVariables_into_empty (p : Compose.Project)
    (hShort : (child directory Compose.variablesName).utf8ByteSize ≤ Path.lengthLimit) :
    ∃ copied copy w₁, copyVariables p directory w = (.ok copied, w₁) ∧ Copied p w copy ∧
      Filled w directory l copy w₁ := by
  obtain ⟨copied, copy, w₁, hCopy, hCopied, hFilled⟩ :=
    copyVariables_start p hShort hEmpty.filled List.not_mem_nil
  rw [List.append_nil] at hFilled
  exact ⟨copied, copy, w₁, hCopy, hCopied, hFilled⟩

variable (hVars : p.dotEnv w = .ok vars)
  (hPlan : planOf settings options p.services vars = .ok plan)
include hVars hPlan

/-- Where no path is too long, a conversion succeeds: it revises an empty directory to which the
copy of the variables and the manifests of the plan have been added. -/
theorem convert_into_empty
    (hShort : ∀ m ∈ plan.manifests, (child directory m.fileName).utf8ByteSize ≤ Path.lengthLimit) :
    ∃ report copied copy w₁ u, copyVariables p directory w = (.ok copied, w₁) ∧ Copied p w copy ∧
      Filled w directory l copy w₁ ∧
      Filled w directory l (plan.manifests.map Manifest.entry ++ copy) u ∧
      convert settings options p directory w =
        (.ok report, ((options.revision plan.namespace.stem).run directory u).1) := by
  obtain ⟨space, hPlanned⟩ := planned_planOf hPlan
  obtain ⟨copied, copy, w₁, hCopy, hCopied, hStart⟩ := copyVariables_into_empty hEmpty p
    (utf8ByteSize_variablesName hPlanned hEmpty.nonempty hShort)
  have hNew : ∀ m ∈ plan.manifests, m.fileName ∉ keys copy := fun m _ hMem =>
    fileName_ne_variablesName m (hCopied.of_mem hMem)
  obtain ⟨written, u, hWrite, hFilled⟩ :=
    Manifest.mapM_writeTo hPlanned.ready hShort hPlanned.nodup_slots hStart hNew
  have hRevise : (options.revision plan.namespace.stem).revise directory u =
      (.ok ((options.revision plan.namespace.stem).run directory u).2,
        ((options.revision plan.namespace.stem).run directory u).1) := by
    rw [Manifest.Revision.revise,
      if_pos (Workspace.isDirectory_of_leadsTo hFilled.leadsTo)]
  refine ⟨⟨plan.namespace.stem, directory, written, copied.toList, plan.services.map (·.1),
    ((options.revision plan.namespace.stem).run directory u).2⟩, copied, copy, w₁, u, hCopy,
    hCopied, hStart, hFilled, ?_⟩
  rw [convert, Action.bind_of_ok (Action.ask_of_ok (by rw [hVars]; rfl)),
    Action.bind_of_ok (Action.ask_of_ok (by rw [hPlan]; rfl)),
    Action.bind_of_ok hEmpty.prepareDirectory_eq_ok, Action.bind_of_ok hCopy,
    Action.bind_of_ok hWrite, Action.bind_of_ok hRevise]
  rfl

/-- A conversion stops at the first manifest whose path is too long, and leaves the files of those
before it. -/
theorem convert_stops (hSplit : plan.manifests = set ++ m :: rest)
    (hVariables : (child directory Compose.variablesName).utf8ByteSize ≤ Path.lengthLimit)
    (hShort : ∀ m ∈ set, (child directory m.fileName).utf8ByteSize ≤ Path.lengthLimit)
    (hLong : Path.lengthLimit < (child directory m.fileName).utf8ByteSize) :
    ∃ e copy u, convert settings options p directory w = (.error e, u) ∧ Copied p w copy ∧
      Filled w directory l (set.map Manifest.entry ++ copy) u := by
  obtain ⟨space, hPlanned⟩ := planned_planOf hPlan
  obtain ⟨copied, copy, w₁, hCopy, hCopied, hStart⟩ := copyVariables_into_empty hEmpty p hVariables
  have hMem : ∀ n ∈ set, n ∈ plan.manifests := fun n hn => by
    rw [hSplit]
    exact List.mem_append_left _ hn
  have hApart := hPlanned.nodup_slots
  rw [hSplit, List.map_append] at hApart
  obtain ⟨e, u, hWrite, hFilled⟩ := Manifest.mapM_writeTo_of_long rest
    (fun n hn => hPlanned.ready n (hMem n hn)) hShort hApart.of_append_left hStart
    (fun n _ hName => fileName_ne_variablesName n (hCopied.of_mem hName)) hLong
  rw [← hSplit] at hWrite
  refine ⟨e, copy, u, ?_, hCopied, hFilled⟩
  rw [convert, Action.bind_of_ok (Action.ask_of_ok (by rw [hVars]; rfl)),
    Action.bind_of_ok (Action.ask_of_ok (by rw [hPlan]; rfl)),
    Action.bind_of_ok hEmpty.prepareDirectory_eq_ok, Action.bind_of_ok hCopy]
  exact Action.bind_of_error hWrite

/-- A conversion that succeeds has written all of its plan. -/
theorem short_of_convert {report : ConversionReport}
    (h : convert settings options p directory w = (.ok report, v)) :
    ∀ m ∈ plan.manifests, (child directory m.fileName).utf8ByteSize ≤ Path.lengthLimit := by
  obtain ⟨space, hPlanned⟩ := planned_planOf hPlan
  obtain ⟨vars', plan', w₁, copied, w₂, w₃, hVars', hPlan', hMade, hCopy, hWrite, -⟩ :=
    stages_of_convert h
  obtain rfl := Except.ok.inj (hVars.symm.trans hVars')
  obtain rfl := Except.ok.inj (hPlan.symm.trans hPlan')
  obtain ⟨-, rfl⟩ := Prod.mk.inj (hEmpty.prepareDirectory_eq_ok.symm.trans hMade)
  obtain ⟨copy, hCopied, hStart⟩ :=
    filled_of_copyVariables hEmpty.filled (List.forall_mem_nil _) hCopy
  exact (Manifest.filled_of_mapM_writeTo hPlanned.ready hPlanned.nodup_slots hStart
    (fun m _ => directories_of_copied hCopied (List.forall_mem_nil _) m) hWrite).2.1

end Conversion

/-- No two paths of what is left of a plan are the same. -/
theorem Manifest.Remains.nodup_paths {pairs : List (Manifest × Manifest)}
    (h : Remains options set pairs) (hReady : ∀ m ∈ set, m.Ready options space)
    (hApart : (set.map slot).Nodup) (hNonempty : directory ≠ "") :
    (pairs.map fun q => child directory q.2.fileName).Nodup := by
  have hSlots : (pairs.map (·.2)).map slot = set.map slot := by
    rw [← h.planned, List.map_map, List.map_map]
    exact List.map_congr_left fun q hq => (h.leaves q hq).slot_eq
  have hStems : ∀ left ∈ pairs.map (·.2), Name.normalize left.stem = left.stem := by
    refine List.forall_mem_map.2 fun q hq => ?_
    rw [(h.leaves q hq).stem_eq, (hReady _ (h.planned ▸ List.mem_map_of_mem hq)).stem]
  have hPaths : ((pairs.map (·.2)).map fun left => child directory left.fileName).Nodup := by
    refine nodup_map_of_slot (by rwa [hSlots]) fun left hLeft other hOther hSame => ?_
    have hName := congrArg Path.fileName? hSame
    rw [fileName?_fileName (hStems left hLeft) hNonempty,
      fileName?_fileName (hStems other hOther) hNonempty] at hName
    exact slot_eq_of_fileName (Option.some.inj hName)
  rwa [List.map_map] at hPaths

/-- A revision of an empty directory to which planned manifests have been added leaves as many. -/
theorem Manifest.filesIn_run (hEmpty : w.Empty directory l)
    (hSet : Standing options space directory copy set) (hCopied : Copied p w copy)
    (hFilled : Filled w directory l (set.map entry ++ copy) v) :
    (filesIn ((options.revision space).run directory v).1 directory).Nodup ∧
      (filesIn ((options.revision space).run directory v).1 directory).length = set.length := by
  have hBase : w.entries l ⊆ copy := by
    rw [hEmpty.entries_eq]
    exact List.nil_subset copy
  obtain ⟨v', r, ordered, pairs, hRun, hPerm, hRemains, hFiles, -⟩ :=
    run_leaves hSet (hCopied.isNoManifest hEmpty.nonempty) hBase hFilled
  have hOrdered := hSet.of_perm hPerm
  rw [hRun, hFiles.nodup_iff, hFiles.length_eq, List.length_map, ← hPerm.length_eq,
    ← hRemains.planned, List.length_map]
  exact ⟨hRemains.nodup_paths hOrdered.ready hOrdered.apart hEmpty.nonempty, rfl⟩

/-- The files of a plan have different names, whatever deployments become daemon sets, also under
the names that a revision gives them, and no two of its objects share their kind and their name. A
conversion into an empty directory succeeds
exactly when none of the paths is too long, and then leaves as many manifests as were planned. -/
theorem manifests_apart (hPlan : planOf settings options p.services vars = .ok plan) :
    (plan.manifests.map (·.fileName)).Nodup ∧
      (∀ chosen : String → Bool,
        (plan.manifests.map fun m => Manifest.daemonSetName chosen m.fileName).Nodup) ∧
      (∀ o : Manifest.Revision, (plan.manifests.map fun m => o.destination m.fileName).Nodup) ∧
      (plan.manifests.map Manifest.identity).Nodup ∧
      ∀ (w : Workspace) (directory : String), p.dotEnv w = .ok vars →
        w.isDirectory directory = true → w.list directory = [] →
        ((∃ report v, convert settings options p directory w = (.ok report, v)) ↔
            ∀ m ∈ plan.manifests, (child directory m.fileName).utf8ByteSize ≤ Path.lengthLimit) ∧
          ∀ report v, convert settings options p directory w = (.ok report, v) →
            (Manifest.filesIn v directory).Nodup ∧
              (Manifest.filesIn v directory).length = plan.count := by
  obtain ⟨space, hPlanned⟩ := planned_planOf hPlan
  refine ⟨hPlanned.nodup_fileNames, hPlanned.nodup_daemonSetNames, fun o => ?_,
    hPlanned.nodup_identities, ?_⟩
  · simp only [Manifest.Revision.destination_eq]
    exact hPlanned.nodup_daemonSetNames o.isDaemon
  intro w directory hVars hThere hNone
  obtain ⟨l, hEmpty⟩ := Workspace.exists_empty hThere hNone
  refine ⟨⟨?_, fun hShort => ?_⟩, fun report v hConvert => ?_⟩
  · rintro ⟨report, v, hConvert⟩
    exact short_of_convert hEmpty hVars hPlan hConvert
  · obtain ⟨report, _, _, _, u, -, -, -, -, hConvert⟩ :=
      convert_into_empty hEmpty hVars hPlan hShort
    exact ⟨report, _, hConvert⟩
  · have hShort := short_of_convert hEmpty hVars hPlan hConvert
    obtain ⟨_, _, copy, _, u, -, hCopied, -, hFilled, hSame⟩ :=
      convert_into_empty hEmpty hVars hPlan hShort
    obtain ⟨-, rfl⟩ := Prod.mk.inj (hConvert.symm.trans hSame)
    have hStem : plan.namespace.stem = space := by
      rw [hPlanned.namespace_eq]
      rfl
    rw [hStem]
    exact Manifest.filesIn_run hEmpty (Manifest.standing_of_copied hPlanned hShort hCopied) hCopied
      hFilled

end Empty

/-! ### A directory in the home -/

/-- The directory in the home, with slashes behind its name. -/
def outPath (slashes : Nat) : String := String.ofList ("out".toList ++ List.replicate slashes '/')

theorem utf8ByteSize_outPath (slashes : Nat) : (outPath slashes).utf8ByteSize = 3 + slashes := by
  have hOut : ∀ c ∈ "out".toList, c.utf8Size = 1 := by
    have hChars : "out".toList = ['o', 'u', 't'] := rfl
    rw [hChars]
    simp only [List.forall_mem_cons]
    exact ⟨rfl, rfl, rfl, List.forall_mem_nil _⟩
  have hSlash : ∀ c ∈ List.replicate slashes '/', c.utf8Size = 1 := by
    intro c hc
    rw [List.eq_of_mem_replicate hc]
    rfl
  rw [outPath, Text.utf8ByteSize_ofList (List.forall_mem_append.2 ⟨hOut, hSlash⟩),
    List.length_append, List.length_replicate]
  rfl

theorem outPath_ne_empty (slashes : Nat) : outPath slashes ≠ "" := by
  intro hEq
  have hSize := congrArg String.utf8ByteSize hEq
  rw [utf8ByteSize_outPath] at hSize
  simp at hSize

theorem utf8ByteSize_child_outPath {slashes : Nat} (h : 0 < slashes) {name : String}
    (hName : Path.IsName name) :
    (child (outPath slashes) name).utf8ByteSize = 3 + slashes + name.utf8ByteSize := by
  have hSlash : Path.endsInSlash (outPath slashes) = true := by
    obtain ⟨n, rfl⟩ := Nat.exists_eq_add_one.2 h
    rw [Path.endsInSlash, outPath, String.toList_ofList, List.replicate_succ', ← List.append_assoc,
      List.getLast?_concat]
    rfl
  rw [child, hName.not_isAbsolute, beq_false_of_ne (outPath_ne_empty slashes), hSlash]
  simp only [Bool.or_self, Bool.false_eq_true, if_false, if_true]
  rw [String.utf8ByteSize_append, utf8ByteSize_outPath]

theorem empty_outPath (slashes : Nat) (h : 3 + slashes ≤ Path.lengthLimit) :
    homeWithOut.Empty (outPath slashes) ["home", "out"] := by
  refine ⟨Workspace.leadsTo_iff.2 ⟨?_, outPath_ne_empty slashes, by rwa [utf8ByteSize_outPath], ?_⟩,
    rfl⟩
  · simp [outPath]
  · have hSlashes : ∀ c ∈ List.replicate slashes '/', c = '/' := fun c hc =>
      List.eq_of_mem_replicate hc
    obtain ⟨tail, hTail, hIdle⟩ := Path.pieces_append_slashes hSlashes "out".toList
    have hOut : Path.pieces (String.ofList "out".toList) = ["out"] := by decide +kernel
    have hStart : homeWithOut.start (outPath slashes) = ["home"] := by
      simp [Workspace.start, Path.isAbsolute, outPath, homeWithOut, cleanHome, Workspace.put]
    have hWay : FileTree.Way homeWithOut.files ["home", "out"] .directory FileTree.linkLimit
        ["home"] ["out"] :=
      .enter rfl isName_out.notIdle isName_out.notUp isName_out.short rfl (by simp) (.done rfl)
    rw [hStart, outPath, hTail, hOut]
    exact hWay.append_idle hIdle

theorem place_variables_homeWithOut :
    homeWithOut.place Compose.variablesName true = .ok (.absent ["home", ".env"]) := by
  have hReaches : homeWithOut.Reaches homeWithOut.here Compose.variablesName
      Compose.variablesName := Workspace.reaches_name rfl isName_variablesName
  have hNone : OrderedMap.find? (homeWithOut.entries homeWithOut.here) Compose.variablesName =
      none := by decide +kernel
  rw [hReaches.place_eq (by simp [hNone]) true, hNone]
  rfl

/-- The variables of a project in the home are none when there is a directory in it. -/
theorem dotEnv_homeWithOut {p : Compose.Project} (h : p.variablesPath = Compose.variablesName) :
    p.dotEnv homeWithOut = .ok [] := by
  rw [Compose.Project.dotEnv, h, Workspace.exists?_of_absent place_variables_homeWithOut]
  rfl

theorem isFile_homeWithOut : homeWithOut.isFile Compose.variablesName = false := by
  rw [Workspace.isFile, Workspace.entryAt, place_variables_homeWithOut]

/-- Behind slashes a conversion stops at the first name that is too long there. -/
theorem convert_stops_behind_slashes {settings : Settings} {options : ConvertOptions}
    {p : Compose.Project} {plan : Plan} {set rest : List Manifest} {m : Manifest} {slashes : Nat}
    (hPath : p.variablesPath = Compose.variablesName)
    (hPlan : planOf settings options p.services [] = .ok plan)
    (hSplit : plan.manifests = set ++ m :: rest) (hSlash : 0 < slashes)
    (hVariables : 3 + slashes + Compose.variablesName.utf8ByteSize ≤ Path.lengthLimit)
    (hSet : ∀ n ∈ set, 3 + slashes + n.fileName.utf8ByteSize ≤ Path.lengthLimit)
    (hLong : Path.lengthLimit < 3 + slashes + m.fileName.utf8ByteSize) :
    ∃ e v, convert settings options p (outPath slashes) homeWithOut = (.error e, v) ∧
      (keys (v.list (outPath slashes))).Perm (set.map (·.fileName)) := by
  obtain ⟨space, hPlanned⟩ := planned_planOf hPlan
  have hSize : ∀ n ∈ plan.manifests, (child (outPath slashes) n.fileName).utf8ByteSize =
      3 + slashes + n.fileName.utf8ByteSize := fun n hn =>
    utf8ByteSize_child_outPath hSlash (Manifest.isName_fileName (hPlanned.ready n hn).stem)
  rw [hSplit] at hSize
  obtain ⟨hBefore, hFrom⟩ := List.forall_mem_append.1 hSize
  have hEmpty := empty_outPath slashes (Nat.le_trans (Nat.le_add_right _ _) hVariables)
  obtain ⟨e, copy, v, hConvert, hCopied, hFilled⟩ := convert_stops hEmpty
    (dotEnv_homeWithOut hPath) hPlan hSplit
    (by rwa [utf8ByteSize_child_outPath hSlash isName_variablesName])
    (fun n hn => by rw [hBefore n hn]; exact hSet n hn)
    (by rwa [hFrom m (List.mem_cons_self ..)])
  obtain rfl : copy = [] := hCopied.absent (by rw [hPath, isFile_homeWithOut])
  refine ⟨e, v, hConvert, (hFilled.list_perm.map Prod.fst).trans (.of_eq ?_)⟩
  rw [List.append_nil, List.map_map]
  rfl

/-- The web server, planned to run on every node, leaves as many manifests as were planned. -/
theorem manifests_apart_webProject :
    planOf .standard onEveryNode webProject.services [] = .ok webPlan ∧
      (webPlan.manifests.map (·.fileName)).Nodup ∧
      (∀ chosen : String → Bool,
        (webPlan.manifests.map fun m => Manifest.daemonSetName chosen m.fileName).Nodup) ∧
      (∀ o : Manifest.Revision, (webPlan.manifests.map fun m => o.destination m.fileName).Nodup) ∧
      (webPlan.manifests.map Manifest.identity).Nodup ∧
      ∃ report v,
        convert .standard onEveryNode webProject (outPath 0) homeWithOut = (.ok report, v) ∧
        (Manifest.filesIn v (outPath 0)).Nodup ∧
        (Manifest.filesIn v (outPath 0)).length = webPlan.count := by
  obtain ⟨hFiles, hDaemonSets, hRevised, hObjects, hConvert⟩ := manifests_apart planOf_webProject
  have hEmpty := empty_outPath 0 (by decide)
  obtain ⟨hSucceeds, hLeaves⟩ := hConvert homeWithOut (outPath 0)
    (dotEnv_homeWithOut (by decide)) (Workspace.isDirectory_of_leadsTo hEmpty.leads)
    hEmpty.list_eq_nil
  obtain ⟨report, v, hReport⟩ := hSucceeds.2 (by decide +kernel)
  exact ⟨planOf_webProject, hFiles, hDaemonSets, hRevised, hObjects, report, v, hReport,
    hLeaves report v hReport⟩

/-- Behind so many slashes the namespace cannot be written, and the directory stays empty. -/
theorem filesIn_eq_nil_of_slashes :
    planOf .standard .standard bareProject.services [] = .ok barePlan ∧ barePlan.count = 1 ∧
      bareProject.dotEnv homeWithOut = .ok [] ∧ homeWithOut.isDirectory (outPath 4087) = true ∧
      homeWithOut.list (outPath 4087) = [] ∧
      ∃ e u, convert .standard .standard bareProject (outPath 4087) homeWithOut = (.error e, u) ∧
        Manifest.filesIn u (outPath 4087) = [] := by
  have hEmpty := empty_outPath 4087 (by decide)
  have hPlan := planOf_bareProject []
  have hSplit : barePlan.manifests = [] ++ barePlan.namespace :: [] := rfl
  have hFile : barePlan.namespace.fileName = "namespace.yaml" := rfl
  have hLong : Path.lengthLimit < 3 + 4087 + barePlan.namespace.fileName.utf8ByteSize := by
    rw [hFile]
    decide
  obtain ⟨e, u, hConvert, hNames⟩ := convert_stops_behind_slashes (by decide) hPlan hSplit
    (by decide) (by decide) (List.forall_mem_nil _) hLong
  rw [List.map_nil, List.perm_nil, keys, List.map_eq_nil_iff] at hNames
  refine ⟨hPlan, rfl, dotEnv_homeWithOut (by decide), Workspace.isDirectory_of_leadsTo hEmpty.leads,
    hEmpty.list_eq_nil, e, u, hConvert, ?_⟩
  rw [Manifest.filesIn, hNames]
  rfl

end KubeCompose
