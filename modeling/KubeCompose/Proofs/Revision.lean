import KubeCompose.Proofs.FileNames
import KubeCompose.Proofs.ReadBack
import KubeCompose.Proofs.Skeleton
import KubeCompose.Proofs.Workspace
import KubeCompose.Proofs.Writable
import Mathlib.Data.List.Perm.Basic

/-!
# Revising a directory of planned manifests

Each step of a revision takes one file: the file of a planned manifest becomes that of the settled
manifest, all other entries of the directory stay, and the report stays clean. So a run settles all
files, in whatever order the directory lists them.
-/

namespace KubeCompose

open OrderedMap (keys)
open KubeCompose.Path (child)
open Workspace (Filled)
open Yaml (isWritable)

namespace Manifest

/-- The file of a manifest in its directory. -/
def entry (m : Manifest) : String × Entry :=
  (m.fileName, .file m.document.render.toUTF8 false)

/-- A manifest that a revision settles: it has a name, its document is in place, and its texts can
be written and read. -/
structure Ready (options : ConvertOptions) (space : String) (m : Manifest) : Prop where
  stem : Name.normalize m.stem = m.stem
  inPlace : m.InPlace (options.revision space)
  daemonSet : m.kind = .deployment →
    Revise.toDaemonSet m.withDashedValues = Revise.asDaemonSet m.withDashedValues
  writable : isWritable false m.document = true
  settledWritable : isWritable false (options.settled m).document = true

end Manifest

section Planned

variable {settings : Settings} {options : ConvertOptions}
  {services : OrderedMap String Compose.Service} {vars : DotEnv} {plan : Plan} {space : String}

theorem ready_ofNamespace (hSpace : Name.ofText options.namespace = .ok space) :
    (Manifest.ofNamespace space).Ready options space := by
  have hNormal : Name.normalize options.namespace = space := (Name.ofText_eq_ok_iff.1 hSpace).1
  have hDash : '_' ∉ space.toList := by
    rw [← hNormal]
    exact fun hMem => (Name.isLabelChar_range (Name.of_mem_normalize hMem)).2.2.1 rfl
  refine ⟨?_, inPlace_ofNamespace _ hDash, ?_, isWritable_ofNamespace space, ?_⟩
  · rw [Manifest.ofNamespace, ← hNormal, Name.normalize_idem]
  · intro hKind
    simp [Manifest.ofNamespace] at hKind
  · rw [ConvertOptions.settled, if_neg fun h => by simp [Manifest.ofNamespace] at h]
    exact isWritable_ofNamespace space

/-- The only deployment of a workload is made of the workload. -/
theorem Workload.eq_deployment {w : Workload} {m : Manifest} (hm : m ∈ w.manifests)
    (hKind : m.kind = .deployment) : m = ⟨.deployment, w.name, w.deployment⟩ := by
  have hMem : m ∈ w.manifests.filter (·.kind.holdsPods) :=
    List.mem_filter.2 ⟨hm, by simp [hKind, ManifestKind.holdsPods]⟩
  rw [holdsPods_manifests, List.mem_singleton] at hMem
  rw [hMem, pods] at hKind ⊢
  cases hDatabase : w.classification.database with
  | some d => simp [hDatabase] at hKind
  | none => rfl

/-- With dashes in its values, the deployment of a workload is that of the workload with dashes in
its values. -/
theorem Workload.withDashedValues_eq {w : Workload} {m : Manifest} (hm : m ∈ w.manifests)
    (hKind : m.kind = .deployment) : m.withDashedValues = w.withDashedValues.deployment := by
  rw [Manifest.withDashedValues, if_pos hKind, eq_deployment hm hKind, dashedValues_deployment]

/-- A workload under a name without underscores, in the namespace and the registry of a revision. -/
structure Workload.InPlace (o : Manifest.Revision) (w : Workload) : Prop where
  name : '_' ∉ w.name.toList
  space : o.namespace = some w.namespace
  image : ∀ registry, o.registry = some registry → Image.inRegistry w.image registry = w.image

theorem inPlace_workloadOf (settings : Settings) (options : ConvertOptions) (vars : DotEnv)
    (space key : String) (s : Compose.Service) :
    (workloadOf settings options vars (Name.normalize key) space s).InPlace
      (options.revision space) where
  name hMem := (Name.isLabelChar_range (Name.of_mem_normalize hMem)).2.2.1 rfl
  space := by rw [workloadOf, ConvertOptions.revision]
  image registry hRegistry := by
    have hOf : (workloadOf settings options vars (Name.normalize key) space s).image =
        Image.inRegistry (s.effectiveImage options.tag) registry := by
      simp only [ConvertOptions.revision] at hRegistry
      simp only [workloadOf, ConvertOptions.imageFor, hRegistry]
    rw [hOf, Image.inRegistry_idem]

theorem ready_workloadOf {key : String} {s : Compose.Service} {m : Manifest}
    (hm : m ∈ (workloadOf settings options vars (Name.normalize key) space s).manifests) :
    m.Ready options space := by
  have hPlace := inPlace_workloadOf settings options vars space key s
  generalize hw : workloadOf settings options vars (Name.normalize key) space s = w at hm hPlace
  have hName : w.name = Name.normalize key := by rw [← hw, workloadOf]
  have hInPlace : m.InPlace (options.revision space) :=
    Workload.inPlace_manifests hPlace.space hPlace.image hPlace.name hm
  have hDashed := Workload.withDashedValues_eq hm
  refine ⟨?_, hInPlace, ?_, w.isWritable_manifests m hm, ?_⟩
  · rw [Workload.stem_of_mem_manifests hm, hName, Name.normalize_idem]
  · intro hKind
    rw [hDashed hKind, Workload.toDaemonSet_deployment]
  · rw [ConvertOptions.settled]
    split
    · rename_i h
      rw [hDashed h.1]
      exact w.withDashedValues.isWritable_asDaemonSet
    · by_cases hKind : m.kind = .deployment
      · simp only [hDashed hKind]
        exact w.withDashedValues.isWritable_deployment
      · simp only [Manifest.withDashedValues, if_neg hKind]
        exact w.isWritable_manifests m hm

/-- All manifests of a plan are ready for the revision of their conversion. -/
theorem Planned.ready (h : Planned settings options services vars space plan) :
    ∀ m ∈ plan.manifests, m.Ready options space := by
  intro m hm
  rcases h.mem_manifests hm with rfl | ⟨e, -, hWorkload⟩
  · exact ready_ofNamespace h.space_eq
  · exact ready_workloadOf hWorkload

end Planned

/-! ### Reading and writing one document -/

theorem Workspace.readText_of_read {w : Workspace} {path text : String}
    (h : w.read path = .ok text.toUTF8) : w.readText path = .ok text := by
  rw [readText, h]
  simp only [Text.fromUTF8?_toUTF8]

theorem Manifest.writeDocuments_singleton {document : Yaml}
    (h : isWritable false document = true) : writeDocuments [document] = .ok document.render := by
  have hWrite : document.write = .ok document.render := Yaml.write_eq_ok_iff.2 ⟨h, rfl⟩
  rw [writeDocuments, List.mapM_cons, hWrite]
  simp [bind, Except.bind, pure, Except.pure, Except.map, String.join]

namespace Manifest

/-- A report of a revision that found nothing wrong, moved no image and renamed no file. -/
structure RevisionReport.Clean (r : RevisionReport) : Prop where
  problems : r.problems = []
  renamed : r.renamed = []
  moved : r.moved = 0

variable {options : ConvertOptions} {space directory : String} {l : Location}
  {w₁ w : Workspace} {m : Manifest} {others : OrderedMap String Entry} {r : RevisionReport}

/-! ### The step of a revision -/

section Store

variable {name other : String} {old : ByteArray} {executable : Bool}
  (hFilled : Filled w₁ directory l ((name, .file old executable) :: others) w)
  (hBase : w₁.entries l ⊆ others) (hName : Path.IsName name)
  (hShort : (child directory name).utf8ByteSize ≤ Path.lengthLimit) (text : String)
  (r : RevisionReport)
include hFilled hBase hName hShort

/-- A file that is stored again has other bytes. -/
theorem Revision.store_again :
    ∃ w' r', store (child directory name) none text w r = (w', r') ∧
      Filled w₁ directory l ((name, .file text.toUTF8 executable) :: others) w' ∧
      r'.daemonSets = r.daemonSets ∧ (r.Clean → r'.Clean) := by
  have hReaches := Workspace.reaches_child hFilled.leadsTo hName hShort
  have hOld := hFilled.find?_of_mem (List.mem_cons_self ..)
  have hWrite := Workspace.write_file hReaches hOld text.toUTF8
  refine ⟨_, { r with revised := r.revised + 1 }, ?_,
    hFilled.put_again hBase _, rfl, fun h => ⟨h.problems, h.renamed, h.moved⟩⟩
  rw [store, Option.getD_none, hWrite]

/-- A file that is stored under a new name is there no more under its old one. -/
theorem Revision.store_other (hOther : Path.IsName other)
    (hSize : other.utf8ByteSize ≤ name.utf8ByteSize) (hNew : other ≠ name)
    (hFree : other ∉ keys others) :
    ∃ w' r', store (child directory name) (some (Path.withFileName (child directory name) other))
        text w r = (w', r') ∧
      Filled w₁ directory l ((other, .file text.toUTF8 false) :: others) w' ∧
      r'.daemonSets ≠ [] ∧ (r.Clean → r'.Clean) := by
  have hNotMem : other ∉ keys ((name, Entry.file old executable) :: others) := by
    simp only [keys, List.map_cons, List.mem_cons, not_or]
    exact ⟨hNew, hFree⟩
  have hTarget :=
    Workspace.reaches_withFileName hFilled.leadsTo hName hOther hSize hShort
  have hWrite := Workspace.write_new hTarget (hFilled.find?_new hNotMem) text.toUTF8
  have hBoth := (hFilled.put_new hNotMem (.file text.toUTF8 false)).of_perm (.swap ..)
  have hReaches := Workspace.reaches_child hBoth.leadsTo hName hShort
  have hOld := hBoth.find?_of_mem (List.mem_cons_self ..)
  have hDelete := Workspace.delete_file hReaches hOld
  let target := Path.withFileName (child directory name) other
  refine ⟨_, { r with revised := r.revised + 1, daemonSets := r.daemonSets ++ [target] }, ?_,
    hBoth.remove (List.subset_cons_of_subset _ hBase), List.concat_ne_nil _ _,
    fun h => ⟨h.problems, h.renamed, h.moved⟩⟩
  rw [store, Option.getD_some, hWrite]
  simp only [hDelete, target]

end Store

/-- A revision of the file of a ready manifest stores the settled manifest, under the name of its
daemon set when it is one. -/
theorem reviseFile_eq_store (hReady : m.Ready options space) (hReads : m.document.ReadsBack)
    (hShort : (child directory m.fileName).utf8ByteSize ≤ Path.lengthLimit)
    (hFilled : Filled w₁ directory l (m.entry :: others) w) (r : RevisionReport) :
    (options.revision space).reviseFile (w, r) (child directory m.fileName) =
      Revision.store (child directory m.fileName)
        (if m.kind = .deployment ∧ options.runsEverywhere m.stem = true then
          some (Path.withFileName (child directory m.fileName) (options.settled m).fileName)
        else none)
        (options.settled m).document.render w r := by
  have hNonempty : directory ≠ "" := (Workspace.leadsTo_iff.1 hFilled.leadsTo).2.1
  have hReaches :=
    Workspace.reaches_child hFilled.leadsTo (isName_fileName hReady.stem) hShort
  have hText := Workspace.readText_of_read
    (Workspace.read_file hReaches (hFilled.find?_of_mem (List.mem_cons_self ..)))
  have hTarget := daemonPath?_fileName hReady.stem (options.revision space) hNonempty
  rw [ConvertOptions.isDaemon_revision space hReady.stem] at hTarget
  have hWrite := writeDocuments_singleton hReady.settledWritable
  have hDocuments : parseDocuments m.document.render = .ok [m.document] := hReads
  rw [Revision.reviseFile]
  simp only [hText, hDocuments, hTarget, List.map_cons, List.map_nil, hReady.inPlace.movedIn_eq,
    hReady.inPlace.revised_eq, List.foldl_cons, List.foldl_nil, Nat.add_zero]
  by_cases hDaemon : m.kind = .deployment ∧ options.runsEverywhere m.stem = true
  · have hSettled : options.settled m =
        ⟨.daemonSet, m.stem, Revise.asDaemonSet m.withDashedValues⟩ := if_pos hDaemon
    rw [ConvertOptions.fileName_settled hDaemon]
    rw [hSettled] at hWrite ⊢
    simp only [if_pos hDaemon, Option.isSome_some, if_true, hReady.daemonSet hDaemon.1, hWrite]
  · have hSettled : options.settled m = { m with document := m.withDashedValues } := if_neg hDaemon
    rw [hSettled] at hWrite ⊢
    simp only [if_neg hDaemon, Option.isSome_none, Bool.false_eq_true, if_false, hWrite]

/-- A revision of the file of a ready manifest leaves the file of the settled manifest. -/
theorem reviseFile_entry (hReady : m.Ready options space) (hReads : m.document.ReadsBack)
    (hShort : (child directory m.fileName).utf8ByteSize ≤ Path.lengthLimit)
    (hFilled : Filled w₁ directory l (m.entry :: others) w) (hBase : w₁.entries l ⊆ others)
    (hFree : (options.settled m).fileName ∉ keys others) (hClean : r.Clean) :
    ∃ w' r', (options.revision space).reviseFile (w, r) (child directory m.fileName) = (w', r') ∧
      Filled w₁ directory l ((options.settled m).entry :: others) w' ∧ r'.Clean := by
  have hName := isName_fileName hReady.stem
  rw [reviseFile_eq_store hReady hReads hShort hFilled]
  by_cases hDaemon : m.kind = .deployment ∧ options.runsEverywhere m.stem = true
  · have hOther : Path.IsName (options.settled m).fileName :=
      isName_fileName (by rw [options.stem_settled, hReady.stem])
    obtain ⟨w', r', hStore, hFilled', -, hKeep⟩ := Revision.store_other hFilled hBase hName hShort
      (options.settled m).document.render r hOther (options.utf8ByteSize_fileName_settled m)
      (ConvertOptions.fileName_settled_ne hDaemon) hFree
    rw [if_pos hDaemon]
    exact ⟨w', r', hStore, hFilled', hKeep hClean⟩
  · have hSame : (options.settled m).entry =
        (m.fileName, .file m.withDashedValues.render.toUTF8 false) := by
      rw [ConvertOptions.settled, if_neg hDaemon]
      rfl
    have hDocument : (options.settled m).document = m.withDashedValues := by
      rw [ConvertOptions.settled, if_neg hDaemon]
    obtain ⟨w', r', hStore, hFilled', -, hKeep⟩ :=
      Revision.store_again hFilled hBase hName hShort m.withDashedValues.render r
    rw [if_neg hDaemon, hDocument, hSame]
    exact ⟨w', r', hStore, hFilled', hKeep hClean⟩

/-! ### The run of a revision -/

/-- What the steps on the files of manifests need, whose slots differ, in a directory that holds
other entries besides. -/
structure Revisable (options : ConvertOptions) (space directory : String)
    (kept : OrderedMap String Entry) (set : List Manifest) : Prop where
  ready : ∀ m ∈ set, m.Ready options space
  reads : ∀ m ∈ set, m.document.ReadsBack
  short : ∀ m ∈ set, (child directory m.fileName).utf8ByteSize ≤ Path.lengthLimit
  apart : (set.map slot).Nodup
  free : ∀ m ∈ set, (options.settled m).fileName ∉ keys kept

/-- Settled, the first manifest is one of the entries kept. -/
theorem Revisable.of_cons {kept : OrderedMap String Entry} {set : List Manifest}
    (h : Revisable options space directory kept (m :: set)) :
    Revisable options space directory ((options.settled m).entry :: kept) set ∧
      (options.settled m).fileName ∉ keys (set.map entry ++ kept) := by
  have hSlots := h.apart
  rw [List.map_cons, List.nodup_cons] at hSlots
  have hOther : ∀ n ∈ set, m.slot ≠ n.slot := fun n hn hEq =>
    hSlots.1 (hEq ▸ List.mem_map_of_mem hn)
  refine ⟨⟨fun n hn => h.ready n (List.mem_cons_of_mem m hn),
    fun n hn => h.reads n (List.mem_cons_of_mem m hn),
    fun n hn => h.short n (List.mem_cons_of_mem m hn), hSlots.2, fun n hn => ?_⟩, ?_⟩
  · simp only [keys, List.map_cons, List.mem_cons, not_or]
    refine ⟨fun hEq => hOther n hn ?_, h.free n (List.mem_cons_of_mem m hn)⟩
    have hSlot := slot_eq_of_fileName hEq
    rw [options.slot_settled, options.slot_settled] at hSlot
    exact hSlot.symm
  · simp only [keys, List.map_append, List.map_map, List.mem_append, not_or]
    refine ⟨fun hMem => ?_, h.free m (List.mem_cons_self ..)⟩
    obtain ⟨n, hn, hEq⟩ := List.mem_map.1 hMem
    have hSlot := slot_eq_of_fileName (m := n) hEq
    rw [options.slot_settled] at hSlot
    exact hOther n hn hSlot.symm

/-- The steps on the files of manifests settle them one by one. -/
theorem foldl_reviseFile {kept : OrderedMap String Entry} {set : List Manifest}
    (hSet : Revisable options space directory kept set)
    (hFilled : Filled w₁ directory l (set.map entry ++ kept) w) (hBase : w₁.entries l ⊆ kept)
    (hClean : r.Clean) :
    ∃ w' r', (set.map fun m => child directory m.fileName).foldl
        (options.revision space).reviseFile (w, r) = (w', r') ∧
      Filled w₁ directory l ((set.map fun m => (options.settled m).entry) ++ kept) w' ∧
      r'.Clean := by
  induction set generalizing kept w r with
  | nil => exact ⟨w, r, rfl, hFilled, hClean⟩
  | cons m set ih =>
    obtain ⟨hRest, hFree⟩ := hSet.of_cons
    have hMem := List.mem_cons_self (a := m) (l := set)
    obtain ⟨v, s, hStep, hStepFilled, hStepClean⟩ :=
      reviseFile_entry (hSet.ready m hMem) (hSet.reads m hMem) (hSet.short m hMem) hFilled
        (List.subset_append_of_subset_right _ hBase) hFree hClean
    have hMiddle : Filled w₁ directory l (set.map entry ++ (options.settled m).entry :: kept) v :=
      hStepFilled.of_perm List.perm_middle.symm
    obtain ⟨w', r', hFold, hFilled', hClean'⟩ := ih hRest hMiddle
      (List.subset_cons_of_subset _ hBase) hStepClean
    refine ⟨w', r', ?_, ?_, hClean'⟩
    · rw [List.map_cons, List.foldl_cons, hStep, hFold]
    · exact hFilled'.of_perm List.perm_middle

/-- Whether an entry of a directory is not revised: it has another name than manifests have, or is
no file. -/
def IsNoManifest (directory : String) (e : String × Entry) : Prop :=
  isManifestName (child directory e.1) = false ∨ ∀ bytes executable, e.2 ≠ .file bytes executable

/-- The manifests of a directory that is filled with files under names of manifests and others. -/
theorem filesIn_perm {files kept : OrderedMap String Entry}
    (hFiles : ∀ e ∈ files, isManifestName (child directory e.1) = true ∧ e.2.IsFile)
    (hKept : ∀ e ∈ kept, IsNoManifest directory e)
    (hFilled : Filled w₁ directory l (files ++ kept) w) :
    (filesIn w directory).Perm ((keys files).map (child directory)) := by
  refine (hFilled.list_perm.filterMap _).trans (.of_eq ?_)
  rw [List.filterMap_append, ← List.append_nil ((keys files).map (child directory))]
  congr 1
  · rw [keys, List.map_map, ← List.filterMap_eq_map]
    refine List.filterMap_congr fun e he => ?_
    obtain ⟨hManifest, bytes, executable, hEntry⟩ := hFiles e he
    obtain ⟨name, entry⟩ := e
    obtain rfl : entry = .file bytes executable := hEntry
    exact if_pos hManifest
  · refine List.filterMap_eq_nil_iff.2 fun e he => ?_
    obtain ⟨name, found⟩ := e
    cases found with
    | file bytes executable =>
      rcases hKept _ he with hName | hEntry
      · exact if_neg (by simp [hName])
      · exact absurd rfl (hEntry bytes executable)
    | _ => rfl

/-- The manifests of a directory that is filled with files of manifests and others. -/
theorem filesIn_perm_entries {kept : OrderedMap String Entry} {set : List Manifest}
    (hStems : ∀ m ∈ set, Name.normalize m.stem = m.stem)
    (hKept : ∀ e ∈ kept, IsNoManifest directory e)
    (hFilled : Filled w₁ directory l (set.map entry ++ kept) w) :
    (filesIn w directory).Perm (set.map fun m => child directory m.fileName) := by
  have hNonempty : directory ≠ "" := (Workspace.leadsTo_iff.1 hFilled.leadsTo).2.1
  have hFiles : ∀ e ∈ set.map entry, isManifestName (child directory e.1) = true ∧ e.2.IsFile := by
    refine List.forall_mem_map.2 fun m hm => ?_
    exact ⟨isManifestName_fileName (hStems m hm) hNonempty, _, _, rfl⟩
  have hPerm := filesIn_perm hFiles hKept hFilled
  rwa [keys, List.map_map, List.map_map] at hPerm

/-- No file of a manifest is renamed. -/
theorem renameFile_eq_self (hStem : Name.normalize m.stem = m.stem) (hDirectory : directory ≠ "")
    (state : Workspace × RevisionReport) :
    Revision.renameFile state (child directory m.fileName) = state := by
  have hDash : '_' ∉ m.fileName.toList := fun hMem => (of_mem_fileName hStem hMem).2.2 rfl
  rw [Revision.renameFile, fileName?_fileName hStem hDirectory]
  simp [hDash]

/-- No file of a list of manifests is renamed. -/
theorem foldl_renameFile_eq_self {set : List Manifest} {files : List String}
    (hStems : ∀ m ∈ set, Name.normalize m.stem = m.stem) (hDirectory : directory ≠ "")
    (hFiles : files.Perm (set.map fun m => child directory m.fileName))
    (state : Workspace × RevisionReport) : files.foldl Revision.renameFile state = state := by
  have hAll : ∀ path ∈ files, Revision.renameFile state path = state := by
    intro path hPath
    obtain ⟨m, hm, rfl⟩ := List.mem_map.1 (hFiles.subset hPath)
    exact renameFile_eq_self (hStems m hm) hDirectory state
  clear hFiles
  induction files with
  | nil => rfl
  | cons path files ih =>
    obtain ⟨hPath, hRest⟩ := List.forall_mem_cons.1 hAll
    rw [List.foldl_cons, hPath, ih hRest]

theorem Revisable.of_perm {kept : OrderedMap String Entry} {set others : List Manifest}
    (h : Revisable options space directory kept set) (hPerm : others.Perm set) :
    Revisable options space directory kept others where
  ready m hm := h.ready m (hPerm.subset hm)
  reads m hm := h.reads m (hPerm.subset hm)
  short m hm := h.short m (hPerm.subset hm)
  apart := (hPerm.map slot).nodup_iff.2 h.apart
  free m hm := h.free m (hPerm.subset hm)

/-- A revision is its steps in some order of the manifests, as long as no step leaves a name with
underscores. -/
theorem run_of_steps {kept : OrderedMap String Entry} {set : List Manifest}
    (after : Manifest → List Manifest) (hStems : ∀ m ∈ set, Name.normalize m.stem = m.stem)
    (hAfter : ∀ m ∈ set, ∀ n ∈ after m, n.stem = m.stem)
    (hKept : ∀ e ∈ kept, IsNoManifest directory e)
    (hFilled : Filled w₁ directory l (set.map entry ++ kept) w)
    (hSteps : ∀ ordered : List Manifest, ordered.Perm set →
      filesIn w directory = ordered.map (fun m => child directory m.fileName) →
      Filled w₁ directory l (ordered.map entry ++ kept) w →
      ∃ w' r', (ordered.map fun m => child directory m.fileName).foldl
          (options.revision space).reviseFile (w, .empty) = (w', r') ∧
        Filled w₁ directory l ((ordered.flatMap after).map entry ++ kept) w' ∧ r'.Clean) :
    ∃ w' r', (options.revision space).run directory w = (w', r') ∧
      Filled w₁ directory l ((set.flatMap after).map entry ++ kept) w' ∧ r'.Clean := by
  have hNonempty : directory ≠ "" := (Workspace.leadsTo_iff.1 hFilled.leadsTo).2.1
  have hFiles := filesIn_perm_entries hStems hKept hFilled
  -- the files are listed in the order of their names, which is some order of the manifests
  have hOrder : Relation.Comp (· = List.map (fun m => child directory m.fileName) ·) List.Perm
      (filesIn w directory) set := by
    rw [List.eq_map_comp_perm]
    exact hFiles
  obtain ⟨ordered, hListed, hPerm⟩ := hOrder
  obtain ⟨w', r', hFold, hLast, hClean⟩ :=
    hSteps ordered hPerm hListed (hFilled.of_perm ((hPerm.symm.map entry).append_right kept))
  refine ⟨w', r', ?_, hLast.of_perm (((hPerm.flatMap_right after).map entry).append_right kept),
    hClean⟩
  have hLastStems : ∀ n ∈ ordered.flatMap after, Name.normalize n.stem = n.stem := by
    intro n hn
    obtain ⟨m, hm, hMade⟩ := List.mem_flatMap.1 hn
    rw [hAfter m (hPerm.subset hm) n hMade, hStems m (hPerm.subset hm)]
  rw [Revision.run, hListed, hFold]
  exact foldl_renameFile_eq_self hLastStems hNonempty
    (filesIn_perm_entries hLastStems hKept hLast) _

theorem map_entry_settled (options : ConvertOptions) (set : List Manifest) :
    (set.flatMap fun m => [options.settled m]).map entry =
      set.map fun m => (options.settled m).entry := by
  rw [← List.map_eq_flatMap, List.map_map]
  rfl

/-- A revision of a directory of manifests leaves the settled manifests and a clean report. -/
theorem run_revision {kept : OrderedMap String Entry} {set : List Manifest}
    (hSet : Revisable options space directory kept set)
    (hKept : ∀ e ∈ kept, IsNoManifest directory e) (hBase : w₁.entries l ⊆ kept)
    (hFilled : Filled w₁ directory l (set.map entry ++ kept) w) :
    ∃ w' r', (options.revision space).run directory w = (w', r') ∧
      Filled w₁ directory l ((set.map fun m => (options.settled m).entry) ++ kept) w' ∧
      r'.Clean := by
  have hRun := run_of_steps (fun m => [options.settled m])
    (fun m hm => (hSet.ready m hm).stem) (by simp) hKept hFilled fun ordered hPerm _ hOrdered => by
      rw [map_entry_settled]
      exact foldl_reviseFile (hSet.of_perm hPerm) hOrdered hBase ⟨rfl, rfl, rfl⟩
  rwa [map_entry_settled] at hRun

end Manifest

end KubeCompose
