import KubeCompose.CommandLine.Run
import KubeCompose.Proofs.Inputs
import KubeCompose.Proofs.Refusal

/-!
# What a conversion reports as written

The report of a conversion names the files of its plan. They are the manifests of the directory in
the end unless a deployment has become a daemon set: then its own file is gone, and that of the
daemon set is not named among those that were written.
-/

namespace KubeCompose

open OrderedMap (keys)
open KubeCompose.Path (child)
open Workspace (Filled)

variable {settings : Settings} {options : ConvertOptions} {p : Compose.Project}
  {space directory name path : String} {l : Location} {w w₁ v : Workspace} {m left : Manifest}
  {set : List Manifest} {files others kept : OrderedMap String Entry}

/-! ### What was written -/

/-- A path under which something was written reaches a name that had no entry but a file. -/
theorem Workspace.Filled.freeFor (hFilled : Filled w₁ directory l files w)
    (hName : Path.IsName name) (hDirectories : ∀ e ∈ files, e.1 = name → e.2 = .directory)
    {place : Place} (hPlace : w.place (child directory name) true = .ok place)
    (hFree : w.FreeFor place.location) :
    (child directory name).utf8ByteSize ≤ Path.lengthLimit ∧ name ∉ keys files := by
  obtain ⟨-, -, hShort, -⟩ := Workspace.place_eq_ok_iff.1 hPlace
  refine ⟨hShort, fun hMem => ?_⟩
  obtain ⟨⟨found, entry⟩, hFound, hSame⟩ := List.mem_map.1 hMem
  obtain rfl : found = name := hSame
  obtain rfl : entry = .directory := hDirectories _ hFound rfl
  have hEntry := hFilled.find?_of_mem hFound
  have hThere := (Workspace.reaches_child hFilled.leadsTo hName hShort).place_eq
    (by simp [hEntry]) true
  rw [hEntry, hPlace, Except.ok.injEq] at hThere
  rw [hThere] at hFree
  exact FileTree.not_isFile_directory (hFree .directory ((FileTree.look?_child ..).trans hEntry))

namespace Manifest

/-- A manifest that was written is a new file of the directory. -/
theorem filled_of_writeTo (hReady : m.Ready options space)
    (hFilled : Filled w₁ directory l kept w)
    (hDirectories : ∀ e ∈ kept, e.1 = m.fileName → e.2 = .directory)
    (h : m.writeTo directory w = (.ok path, v)) :
    path = child directory m.fileName ∧
      (child directory m.fileName).utf8ByteSize ≤ Path.lengthLimit ∧
      Filled w₁ directory l (m.entry :: kept) v := by
  obtain ⟨text, u, hAsk, hRest⟩ := Action.of_bind_eq_ok h
  obtain ⟨⟨⟩, u', hChange, hReturn⟩ := Action.of_bind_eq_ok hRest
  obtain ⟨-, rfl⟩ := Prod.mk.inj hAsk
  have hWrite := of_mapError_eq_ok (Action.of_change_eq_ok hChange)
  obtain ⟨place, -, hPlace, hFree, -⟩ := Workspace.of_write hWrite
  obtain ⟨hShort, hNew⟩ :=
    hFilled.freeFor (isName_fileName hReady.stem) hDirectories hPlace hFree
  obtain ⟨w', hSame, hAll⟩ := writeTo_new hReady hShort hFilled hNew
  obtain ⟨hPath, rfl⟩ := Prod.mk.inj (h.symm.trans hSame)
  exact ⟨Except.ok.inj hPath, hShort, hAll⟩

/-- Manifests that were written are new files of the directory, and their paths are returned. -/
theorem filled_of_mapM_writeTo {written : List String} (hReady : ∀ m ∈ set, m.Ready options space)
    (hApart : (set.map slot).Nodup) (hFilled : Filled w₁ directory l kept w)
    (hDirectories : ∀ m ∈ set, ∀ e ∈ kept, e.1 = m.fileName → e.2 = .directory)
    (h : (set.mapM fun m => m.writeTo directory : Action ConversionError (List String)) w =
      (.ok written, v)) :
    written = set.map (fun m => child directory m.fileName) ∧
      (∀ m ∈ set, (child directory m.fileName).utf8ByteSize ≤ Path.lengthLimit) ∧
      Filled w₁ directory l (set.map entry ++ kept) v := by
  induction set generalizing kept w written with
  | nil =>
    obtain ⟨hWritten, rfl⟩ := Prod.mk.inj h
    exact ⟨(Except.ok.inj hWritten).symm, List.forall_mem_nil _, hFilled⟩
  | cons m set ih =>
    obtain ⟨hReadyHead, hReadyRest⟩ := List.forall_mem_cons.1 hReady
    obtain ⟨hHead, hRest⟩ := List.forall_mem_cons.1 hDirectories
    rw [List.map_cons, List.nodup_cons] at hApart
    rw [List.mapM_cons] at h
    obtain ⟨path, u, hFirst, hLater⟩ := Action.of_bind_eq_ok h
    obtain ⟨paths, u', hOthers, hReturn⟩ := Action.of_bind_eq_ok hLater
    obtain ⟨hPath, hShort, hNew⟩ := filled_of_writeTo hReadyHead hFilled hHead hFirst
    have hStill : ∀ n ∈ set, ∀ e ∈ m.entry :: kept, e.1 = n.fileName → e.2 = .directory := by
      intro n hn e he hName
      rcases List.mem_cons.1 he with rfl | he
      · refine absurd ?_ hApart.1
        rw [slot_eq_of_fileName (m := m) hName]
        exact List.mem_map_of_mem hn
      · exact hRest n hn e he hName
    obtain ⟨hWritten, rfl⟩ := Prod.mk.inj hReturn
    obtain ⟨hPaths, hShorts, hAll⟩ := ih hReadyRest hApart.2 hNew hStill hOthers
    refine ⟨?_, List.forall_mem_cons.2 ⟨hShort, hShorts⟩, hAll.of_perm List.perm_middle⟩
    rw [← Except.ok.inj hWritten, hPath, hPaths, List.map_cons]

end Manifest

/-- A copy of the variables is a new file of a directory that holds nothing but directories. -/
theorem filled_of_copyVariables {copied : Option String}
    (hFilled : Filled w directory l kept w) (hDirectories : ∀ e ∈ kept, e.2 = .directory)
    (h : copyVariables p directory w = (.ok copied, v)) :
    ∃ copy, Copied p w copy ∧ Filled w directory l (copy ++ kept) v := by
  by_cases hFile : w.isFile p.variablesPath = true
  · have hCopy : ∃ z, w.copy p.variablesPath (child directory Compose.variablesName) = .ok z := by
      rw [copyVariables, if_pos hFile] at h
      cases hStep : w.copy p.variablesPath (child directory Compose.variablesName) with
      | ok z => exact ⟨z, rfl⟩
      | error e =>
        simp only [hStep] at h
        exact absurd (Prod.mk.inj h).1 (by simp)
    obtain ⟨z, hCopy⟩ := hCopy
    obtain ⟨-, -, place, hPlace, hFree, -⟩ := Workspace.of_copy hCopy
    obtain ⟨hShort, hNew⟩ :=
      hFilled.freeFor isName_variablesName (fun e he _ => hDirectories e he) hPlace hFree
    obtain ⟨copied', copy, w', hSame, hCopied, hAll⟩ := copyVariables_start p hShort hFilled hNew
    obtain ⟨-, rfl⟩ := Prod.mk.inj (h.symm.trans hSame)
    exact ⟨copy, hCopied, hAll⟩
  · rw [copyVariables, if_neg hFile] at h
    obtain ⟨-, rfl⟩ := Prod.mk.inj h
    exact ⟨[], ⟨fun h => absurd h hFile, fun _ => rfl⟩, hFilled⟩

/-- Neither a copy of the variables nor a directory is in the way of the file of a manifest. -/
theorem directories_of_copied {copy : OrderedMap String Entry} (hCopied : Copied p w₁ copy)
    (hDirectories : ∀ e ∈ others, e.2 = .directory) (m : Manifest) :
    ∀ e ∈ copy ++ others, e.1 = m.fileName → e.2 = .directory := by
  refine List.forall_mem_append.2 ⟨fun e he hName => ?_, fun e he _ => hDirectories e he⟩
  rw [hCopied.of_mem (OrderedMap.mem_keys_of_mem he)] at hName
  exact absurd hName.symm (fileName_ne_variablesName m)

/-! ### What a revision leaves -/

namespace Manifest

variable {r : RevisionReport}

/-- What a revision may leave for a planned manifest: a file under its name, or its daemon set. -/
inductive Leaves (options : ConvertOptions) (m : Manifest) : Manifest → Prop where
  | same : Leaves options m m
  | daemonSet (h : m.kind = .deployment ∧ options.runsEverywhere m.stem = true) :
    Leaves options m (options.settled m)

namespace Leaves

variable (h : Leaves options m left)
include h

theorem slot_eq : left.slot = m.slot := by
  cases h with
  | same => rfl
  | daemonSet => exact options.slot_settled m

theorem stem_eq : left.stem = m.stem := by
  cases h with
  | same => rfl
  | daemonSet => exact options.stem_settled m

theorem eq_of_fileName (hName : left.fileName = m.fileName) : left = m := by
  cases h with
  | same => rfl
  | daemonSet hDaemon => exact absurd hName (ConvertOptions.fileName_settled_ne hDaemon)

theorem eq_of_not (hNot : ¬ (m.kind = .deployment ∧ options.runsEverywhere m.stem = true)) :
    left = m := by
  cases h with
  | same => rfl
  | daemonSet hDaemon => exact absurd hDaemon hNot

end Leaves

/-- What a revision does not need to know of the documents: planned manifests whose slots differ,
in a directory in which nothing but directories can stand in the place of their daemon sets. -/
structure Standing (options : ConvertOptions) (space directory : String)
    (kept : OrderedMap String Entry) (set : List Manifest) : Prop where
  ready : ∀ m ∈ set, m.Ready options space
  short : ∀ m ∈ set, (child directory m.fileName).utf8ByteSize ≤ Path.lengthLimit
  apart : (set.map slot).Nodup
  directories : ∀ m ∈ set, ∀ e ∈ kept, e.1 = (options.settled m).fileName → e.2 = .directory

namespace Standing

theorem of_perm (h : Standing options space directory kept set) {ordered : List Manifest}
    (hPerm : ordered.Perm set) : Standing options space directory kept ordered where
  ready m hm := h.ready m (hPerm.subset hm)
  short m hm := h.short m (hPerm.subset hm)
  apart := (hPerm.map slot).nodup_iff.2 h.apart
  directories m hm := h.directories m (hPerm.subset hm)

variable (h : Standing options space directory kept (m :: set))
include h

theorem slot_ne {n : Manifest} (hn : n ∈ set) : m.slot ≠ n.slot := by
  have hApart := h.apart
  rw [List.map_cons, List.nodup_cons] at hApart
  exact fun hSame => hApart.1 (hSame ▸ List.mem_map_of_mem hn)

/-- In the place of the first daemon set stands none of the other manifests. -/
theorem directories_head : ∀ e ∈ set.map entry ++ kept, e.1 = (options.settled m).fileName →
    e.2 = .directory := by
  refine List.forall_mem_append.2 ⟨List.forall_mem_map.2 fun n hn hName => ?_,
    h.directories m (List.mem_cons_self ..)⟩
  have hSlot := slot_eq_of_fileName (m := n) hName
  rw [options.slot_settled] at hSlot
  exact absurd hSlot.symm (h.slot_ne hn)

/-- A file in the place of the first manifest is one of the entries kept. -/
theorem of_cons {name : String} {entry : Entry}
    (hName : ∀ n : Manifest, name = n.fileName → n.slot = m.slot) :
    Standing options space directory ((name, entry) :: kept) set where
  ready n hn := h.ready n (List.mem_cons_of_mem m hn)
  short n hn := h.short n (List.mem_cons_of_mem m hn)
  apart := (List.nodup_cons.1 h.apart).2
  directories n hn := by
    refine List.forall_mem_cons.2 ⟨fun hSame => ?_, h.directories n (List.mem_cons_of_mem m hn)⟩
    have hSlot := hName (options.settled n) hSame
    rw [options.slot_settled] at hSlot
    exact absurd hSlot.symm (h.slot_ne hn)

/-- What is left of the first manifest is one of the entries kept. -/
theorem of_leaves (hLeft : Leaves options m left) (entry : Entry) :
    Standing options space directory ((left.fileName, entry) :: kept) set :=
  h.of_cons fun _ hName => (slot_eq_of_fileName hName).symm.trans hLeft.slot_eq

/-- Settled, the first manifest is one of the entries kept. -/
theorem of_settled : Standing options space directory ((options.settled m).entry :: kept) set :=
  h.of_cons fun _ hName => (slot_eq_of_fileName hName).symm.trans (options.slot_settled m)

end Standing

/-- A revision of the file of a planned manifest leaves it under its name, or its daemon set, which
is reported. -/
theorem reviseFile_leaves (hReady : m.Ready options space)
    (hShort : (child directory m.fileName).utf8ByteSize ≤ Path.lengthLimit)
    (hFilled : Filled w₁ directory l (m.entry :: others) w) (hBase : w₁.entries l ⊆ others)
    (hDirectories : ∀ e ∈ others, e.1 = (options.settled m).fileName → e.2 = .directory) :
    ∃ w' r' left bytes x,
      (options.revision space).reviseFile (w, r) (child directory m.fileName) = (w', r') ∧
      Leaves options m left ∧
      Filled w₁ directory l ((left.fileName, .file bytes x) :: others) w' ∧
      (r'.daemonSets = [] ↔ r.daemonSets = [] ∧ left = m) := by
  have hNonempty : directory ≠ "" := (Workspace.leadsTo_iff.1 hFilled.leadsTo).2.1
  have hName := isName_fileName hReady.stem
  have hReaches := Workspace.reaches_child hFilled.leadsTo hName hShort
  have hText := Workspace.readText_of_read
    (Workspace.read_file hReaches (hFilled.find?_of_mem (List.mem_cons_self ..)))
  have hTarget := daemonPath?_fileName hReady.stem (options.revision space) hNonempty
  rw [ConvertOptions.isDaemon_revision space hReady.stem] at hTarget
  -- a problem leaves the file as it was
  have hProblem : ∀ (r : RevisionReport) path problem, ∃ w' r' left bytes x,
      (w, r.note path problem) = (w', r') ∧ Leaves options m left ∧
      Filled w₁ directory l ((left.fileName, .file bytes x) :: others) w' ∧
      (r'.daemonSets = [] ↔ r.daemonSets = [] ∧ left = m) := fun r path problem =>
    ⟨w, r.note path problem, m, _, _, rfl, .same, hFilled, by simp [RevisionReport.note]⟩
  rw [Revision.reviseFile]
  simp only [hText, hTarget]
  cases hParse : parseDocuments m.document.render with
  | error e => exact hProblem r _ _
  | ok documents =>
    simp only
    by_cases hDaemon : m.kind = .deployment ∧ options.runsEverywhere m.stem = true
    · have hOther : Path.IsName (options.settled m).fileName :=
        isName_fileName (by rw [options.stem_settled, hReady.stem])
      have hSize := options.utf8ByteSize_fileName_settled m
      simp only [if_pos hDaemon, Option.isSome_some, if_true,
        ← ConvertOptions.fileName_settled hDaemon]
      split
      · exact hProblem _ _ _
      · rename_i text _
        by_cases hTaken : (options.settled m).fileName ∈ keys others
        · -- a directory stands in the place of the daemon set
          obtain ⟨⟨found, entry⟩, hFound, hSame⟩ := List.mem_map.1 hTaken
          obtain rfl : found = (options.settled m).fileName := hSame
          obtain rfl : entry = .directory := hDirectories _ hFound rfl
          have hEntry : w.folder l (options.settled m).fileName = some .directory :=
            hFilled.find?_of_mem (List.mem_cons_of_mem _ hFound)
          have hWrite := Workspace.write_of_reaches (by simp [hEntry])
            (Workspace.reaches_withFileName hFilled.leadsTo hName hOther hSize hShort) text.toUTF8
          rw [if_pos (Folder.hasDirectory_iff.2 hEntry)] at hWrite
          rw [Revision.store, Option.getD_some, hWrite]
          exact hProblem _ _ _
        · obtain ⟨w', r', hStore, hAll, hSome, -⟩ := Revision.store_other hFilled hBase hName hShort
            text { r with moved := r.moved + (documents.map _).foldl (· + ·) 0 } hOther hSize
            (ConvertOptions.fileName_settled_ne hDaemon) hTaken
          refine ⟨w', r', options.settled m, _, _, hStore, .daemonSet hDaemon, hAll, ?_⟩
          constructor
          · exact fun hNil => absurd hNil hSome
          · rintro ⟨-, hSame⟩
            exact absurd (congrArg fileName hSame) (ConvertOptions.fileName_settled_ne hDaemon)
    · simp only [if_neg hDaemon, Option.isSome_none, Bool.false_eq_true, if_false]
      split
      · exact hProblem _ _ _
      · rename_i text _
        obtain ⟨w', r', hStore, hAll, hSame, -⟩ :=
          Revision.store_again hFilled hBase hName hShort text
            { r with moved := r.moved + (documents.map _).foldl (· + ·) 0 }
        exact ⟨w', r', m, _, _, hStore, .same, hAll, by rw [hSame]; simp⟩

/-- Manifests with what is left of them. -/
structure Remains (options : ConvertOptions) (set : List Manifest)
    (pairs : List (Manifest × Manifest)) : Prop where
  planned : pairs.map (·.1) = set
  leaves : ∀ q ∈ pairs, Leaves options q.1 q.2

/-- The steps on the files of planned manifests leave one file for each of them. -/
theorem foldl_reviseFile_leaves (hSet : Standing options space directory kept set)
    (hFilled : Filled w₁ directory l (set.map entry ++ kept) w) (hBase : w₁.entries l ⊆ kept) :
    ∃ w' r' pairs files, (set.map fun m => child directory m.fileName).foldl
        (options.revision space).reviseFile (w, r) = (w', r') ∧
      Remains options set pairs ∧ keys files = pairs.map (·.2.fileName) ∧
      (∀ e ∈ files, e.2.IsFile) ∧ Filled w₁ directory l (files ++ kept) w' ∧
      (r'.daemonSets = [] ↔ r.daemonSets = [] ∧ ∀ q ∈ pairs, q.2 = q.1) := by
  induction set generalizing kept w r with
  | nil =>
    exact ⟨w, r, [], [], rfl, ⟨rfl, List.forall_mem_nil _⟩, rfl, List.forall_mem_nil _, hFilled,
      by simp⟩
  | cons m set ih =>
    have hMem := List.mem_cons_self (a := m) (l := set)
    obtain ⟨u, s, left, bytes, x, hStep, hLeft, hNew, hHead⟩ :=
      reviseFile_leaves (r := r) (hSet.ready m hMem) (hSet.short m hMem) hFilled
        (List.subset_append_of_subset_right _ hBase) hSet.directories_head
    obtain ⟨w', r', pairs, files, hFold, hRemains, hKeys, hFiles, hAll, hRest⟩ :=
      ih (r := s) (hSet.of_leaves hLeft (.file bytes x)) (hNew.of_perm List.perm_middle.symm)
        (List.subset_cons_of_subset _ hBase)
    refine ⟨w', r', (m, left) :: pairs, (left.fileName, .file bytes x) :: files, ?_,
      ⟨?_, List.forall_mem_cons.2 ⟨hLeft, hRemains.leaves⟩⟩, ?_,
      List.forall_mem_cons.2 ⟨⟨bytes, x, rfl⟩, hFiles⟩, hAll.of_perm List.perm_middle, ?_⟩
    · rw [List.map_cons, List.foldl_cons, hStep, hFold]
    · rw [List.map_cons, hRemains.planned]
    · rw [keys, List.map_cons, List.map_cons, ← hKeys, keys]
    · rw [hRest, hHead, List.forall_mem_cons, and_assoc]

/-- A revision of a directory of planned manifests leaves one manifest for each of them there, and
reports a daemon set unless all of them are the planned ones. -/
theorem run_leaves (hSet : Standing options space directory kept set)
    (hKept : ∀ e ∈ kept, IsNoManifest directory e) (hBase : w₁.entries l ⊆ kept)
    (hFilled : Filled w₁ directory l (set.map entry ++ kept) w) :
    ∃ w' r' ordered pairs, (options.revision space).run directory w = (w', r') ∧
      ordered.Perm set ∧ Remains options ordered pairs ∧
      (filesIn w' directory).Perm (pairs.map fun q => child directory q.2.fileName) ∧
      (r'.daemonSets = [] ↔ ∀ q ∈ pairs, q.2 = q.1) := by
  have hNonempty : directory ≠ "" := (Workspace.leadsTo_iff.1 hFilled.leadsTo).2.1
  have hListed := filesIn_perm_entries (fun m hm => (hSet.ready m hm).stem) hKept hFilled
  -- the files are listed in the order of their names, which is some order of the manifests
  have hOrder : Relation.Comp (· = List.map (fun m => child directory m.fileName) ·) List.Perm
      (filesIn w directory) set := by
    rw [List.eq_map_comp_perm]
    exact hListed
  obtain ⟨ordered, hList, hPerm⟩ := hOrder
  have hOrdered := hSet.of_perm hPerm
  obtain ⟨w', r', pairs, files, hFold, hRemains, hKeys, hFiles, hAll, hDaemonSets⟩ :=
    foldl_reviseFile_leaves (r := .empty) hOrdered
      (hFilled.of_perm ((hPerm.symm.map entry).append_right kept)) hBase
  have hStems : ∀ left ∈ pairs.map (·.2), Name.normalize left.stem = left.stem := by
    refine List.forall_mem_map.2 fun q hq => ?_
    have hPlanned : q.1 ∈ ordered := hRemains.planned ▸ List.mem_map_of_mem hq
    rw [(hRemains.leaves q hq).stem_eq, (hOrdered.ready _ hPlanned).stem]
  have hNames : keys files = (pairs.map (·.2)).map fileName := by rw [hKeys, List.map_map]; rfl
  have hManifests : ∀ e ∈ files, isManifestName (child directory e.1) = true ∧ e.2.IsFile := by
    intro e he
    have hName : e.1 ∈ (pairs.map (·.2)).map fileName := hNames ▸ OrderedMap.mem_keys_of_mem he
    obtain ⟨left, hLeft, hSame⟩ := List.mem_map.1 hName
    rw [← hSame]
    exact ⟨isManifestName_fileName (hStems left hLeft) hNonempty, hFiles e he⟩
  have hLast := filesIn_perm hManifests hKept hAll
  rw [hNames, List.map_map] at hLast
  refine ⟨w', r', ordered, pairs, ?_, hPerm, hRemains, ?_, ?_⟩
  · rw [Revision.run, hList, hFold]
    exact foldl_renameFile_eq_self hStems hNonempty hLast _
  · rw [List.map_map] at hLast
    exact hLast
  · rw [hDaemonSets]
    exact and_iff_right rfl

end Manifest

/-! ### The report of a conversion -/

/-- The stages of a conversion that succeeded. -/
theorem stages_of_convert {report : ConversionReport}
    (h : convert settings options p directory w = (.ok report, v)) :
    ∃ vars plan w₁ copied w₂ w₃, p.dotEnv w = .ok vars ∧
      planOf settings options p.services vars = .ok plan ∧
      prepareDirectory directory w = (.ok (), w₁) ∧
      copyVariables p directory w₁ = (.ok copied, w₂) ∧
      (plan.manifests.mapM fun m => m.writeTo directory : Action ConversionError (List String)) w₂ =
        (.ok report.written, w₃) ∧
      w₃.isDirectory directory = true ∧
      (options.revision plan.namespace.stem).run directory w₃ = (v, report.revision) := by
  rw [convert_eq] at h
  obtain ⟨vars, _, hVars, hPlanning⟩ := Action.of_bind_eq_ok h
  obtain ⟨hRead, rfl⟩ := Action.of_ask_eq_ok hVars
  obtain ⟨plan, _, hPlan, hMaking⟩ := Action.of_bind_eq_ok hPlanning
  obtain ⟨hMapped, rfl⟩ := Action.of_ask_eq_ok hPlan
  obtain ⟨⟨⟩, w₁, hMade, hCopying⟩ := Action.of_bind_eq_ok hMaking
  obtain ⟨copied, w₂, hCopy, hFilling⟩ := Action.of_bind_eq_ok hCopying
  obtain ⟨filled, w₄, hFill, hReturn⟩ := Action.of_bind_eq_ok hFilling
  obtain ⟨hReport, rfl⟩ := Prod.mk.inj hReturn
  obtain ⟨written, w₃, hWrite, hRevising⟩ := Action.of_bind_eq_ok hFill
  obtain ⟨revision, _, hRevise, hEnd⟩ := Action.of_bind_eq_ok hRevising
  obtain ⟨hBoth, rfl⟩ := Prod.mk.inj hEnd
  obtain rfl : (written, revision) = filled := Except.ok.inj hBoth
  obtain rfl := Except.ok.inj hReport
  rw [Manifest.Revision.revise] at hRevise
  split at hRevise
  case isFalse => exact absurd (Prod.mk.inj hRevise).1 (by simp)
  rename_i hThere
  obtain ⟨hSame, hLast⟩ := Prod.mk.inj hRevise
  exact ⟨vars, plan, w₁, copied, w₂, w₃, of_mapError_eq_ok hRead, of_mapError_eq_ok hMapped, hMade,
    hCopy, hWrite, hThere, Prod.ext hLast (Except.ok.inj hSame)⟩

/-- A conversion before its revision. The directory was prepared in `w₁` and held nothing but
directories then; now the copy of the variables and the manifests of the plan stand beside them. -/
structure Unrevised (settings : Settings) (options : ConvertOptions) (p : Compose.Project)
    (directory : String) (w : Workspace) (vars : DotEnv) (plan : Plan) (space : String)
    (w₁ : Workspace) (l : Location) (copy : OrderedMap String Entry) (w₃ : Workspace) : Prop where
  vars_eq : p.dotEnv w = .ok vars
  plan_eq : planOf settings options p.services vars = .ok plan
  planned : Planned settings options p.services vars space plan
  larger : Extends w w₁
  directories : ∀ e ∈ w₁.entries l, e.2 = .directory
  copied : Copied p w₁ copy
  short : ∀ m ∈ plan.manifests, (child directory m.fileName).utf8ByteSize ≤ Path.lengthLimit
  filled : Filled w₁ directory l
    (plan.manifests.map Manifest.entry ++ (copy ++ w₁.entries l)) w₃

namespace Unrevised

variable {vars : DotEnv} {plan : Plan} {w₃ : Workspace} {copy : OrderedMap String Entry}
  (h : Unrevised settings options p directory w vars plan space w₁ l copy w₃)
include h

theorem nonempty : directory ≠ "" := (Workspace.leadsTo_iff.1 h.filled.leadsTo).2.1

/-- What stands beside the manifests is not revised. -/
theorem isNoManifest : ∀ e ∈ copy ++ w₁.entries l, Manifest.IsNoManifest directory e :=
  List.forall_mem_append.2 ⟨h.copied.isNoManifest h.nonempty, fun e he => .inr fun bytes x => by
    rw [h.directories e he]
    simp⟩

/-- Neither the copy of the variables nor a directory is in the way of a file. -/
theorem standing : Manifest.Standing options space directory (copy ++ w₁.entries l)
    plan.manifests where
  ready := h.planned.ready
  short := h.short
  apart := h.planned.nodup_slots
  directories _ _ := directories_of_copied h.copied h.directories _

end Unrevised

/-- A conversion into a directory that holds no file when it has been made succeeds by a revision
of it with the manifests of the plan. -/
theorem unrevised_of_convert {report : ConversionReport} (hSound : w.files.Sound)
    (hNoFile : ∀ e ∈ (prepareDirectory directory w).2.list directory, e.2 = .directory)
    (h : convert settings options p directory w = (.ok report, v)) :
    ∃ vars plan space w₁ l copy w₃,
      Unrevised settings options p directory w vars plan space w₁ l copy w₃ ∧
      report.written = plan.manifests.map (fun m => child directory m.fileName) ∧
      (options.revision space).run directory w₃ = (v, report.revision) := by
  obtain ⟨vars, plan, w₁, copied, w₂, w₃, hVars, hPlan, hMade, hCopy, hWrite, hRevised, hRevise⟩ :=
    stages_of_convert h
  obtain ⟨space, hPlanned⟩ := planned_planOf hPlan
  -- the directory that is revised was there when it had been prepared
  obtain ⟨_, hLast⟩ := Workspace.exists_leadsTo hRevised
  obtain ⟨-, hNonempty, hShort, -⟩ := Workspace.leadsTo_iff.1 hLast
  have hExtends := extends_prepareDirectory hSound directory
  rw [hMade] at hExtends hNoFile
  obtain ⟨l, hLeads⟩ := Workspace.exists_leadsTo <| Workspace.isDirectory_of_makeDirectories
    (Workspace.makeDirectories_of_prepareDirectory hMade) hNonempty hShort
  have hDirectories : ∀ e ∈ w₁.entries l, e.2 = .directory := fun e he =>
    hNoFile e ((Workspace.list_of_leadsTo hLeads).symm.subset he)
  obtain ⟨copy, hCopied, hStart⟩ := filled_of_copyVariables
    (.start hLeads (FileTree.nodup_children hExtends.sound.distinct l)) hDirectories hCopy
  obtain ⟨hWritten, hShorts, hFilled⟩ := Manifest.filled_of_mapM_writeTo hPlanned.ready
    hPlanned.nodup_slots hStart (fun m _ => directories_of_copied hCopied hDirectories m) hWrite
  have hStem : plan.namespace.stem = space := by
    rw [hPlanned.namespace_eq]
    rfl
  rw [hStem] at hRevise
  exact ⟨vars, plan, space, w₁, l, copy, w₃, ⟨hVars, hPlan, hPlanned, hExtends, hDirectories,
    hCopied, hShorts, hFilled⟩, hWritten, hRevise⟩

/-- A conversion into a directory that holds no file when it has been made reports the paths of the
planned manifests, and one manifest for each of them is in the directory in the end. -/
theorem remains_of_convert {report : ConversionReport} (hSound : w.files.Sound)
    (hNoFile : ∀ e ∈ (prepareDirectory directory w).2.list directory, e.2 = .directory)
    (h : convert settings options p directory w = (.ok report, v)) :
    directory ≠ "" ∧ ∃ vars plan ordered pairs, p.dotEnv w = .ok vars ∧
      planOf settings options p.services vars = .ok plan ∧
      report.written = plan.manifests.map (fun m => child directory m.fileName) ∧
      ordered.Perm plan.manifests ∧ Manifest.Remains options ordered pairs ∧
      (Manifest.filesIn v directory).Perm (pairs.map fun q => child directory q.2.fileName) ∧
      (report.revision.daemonSets = [] ↔ ∀ q ∈ pairs, q.2 = q.1) := by
  obtain ⟨vars, plan, space, w₁, l, copy, w₃, hUnrevised, hWritten, hRevise⟩ :=
    unrevised_of_convert hSound hNoFile h
  obtain ⟨w', r', ordered, pairs, hRun, hPerm, hRemains, hFiles, hDaemonSets⟩ :=
    Manifest.run_leaves hUnrevised.standing hUnrevised.isNoManifest (List.subset_append_right _ _)
      hUnrevised.filled
  rw [hRun] at hRevise
  obtain ⟨rfl, rfl⟩ := Prod.mk.inj hRevise
  exact ⟨hUnrevised.nonempty, vars, plan, ordered, pairs, hUnrevised.vars_eq, hUnrevised.plan_eq,
    hWritten, hPerm, hRemains, hFiles, hDaemonSets⟩

/-- The same paths are left that were planned exactly when every manifest is left as itself. -/
theorem Manifest.Remains.paths_eq_iff {pairs : List (Manifest × Manifest)}
    (h : Remains options set pairs) (hReady : ∀ m ∈ set, m.Ready options space)
    (hApart : (set.map slot).Nodup) (hNonempty : directory ≠ "") :
    (∀ path, path ∈ set.map (fun m => child directory m.fileName) ↔
      path ∈ pairs.map fun q => child directory q.2.fileName) ↔ ∀ q ∈ pairs, q.2 = q.1 := by
  have hPlanned : ∀ q ∈ pairs, q.1 ∈ set := fun q hq => h.planned ▸ List.mem_map_of_mem hq
  have hSlots : (pairs.map fun q => q.1.slot).Nodup := by
    have hList : pairs.map (fun q => q.1.slot) = set.map slot := by
      rw [← h.planned, List.map_map]
      rfl
    rwa [hList]
  constructor
  · intro hPaths q hq
    obtain ⟨other, hOther, hSame⟩ :=
      List.mem_map.1 ((hPaths _).1 (List.mem_map_of_mem (hPlanned q hq)))
    have hLeft : Name.normalize other.2.stem = other.2.stem := by
      rw [(h.leaves other hOther).stem_eq, (hReady _ (hPlanned other hOther)).stem]
    have hName : other.2.fileName = q.1.fileName := by
      have hLast := congrArg Path.fileName? hSame
      rw [fileName?_fileName hLeft hNonempty,
        fileName?_fileName (hReady _ (hPlanned q hq)).stem hNonempty] at hLast
      exact Option.some.inj hLast
    -- names that are the same belong to one slot, and so to one manifest
    have hSlot : other.1.slot = q.1.slot := by
      rw [← (h.leaves other hOther).slot_eq, slot_eq_of_fileName hName]
    obtain rfl := List.inj_on_of_nodup_map hSlots hOther hq hSlot
    exact (h.leaves other hOther).eq_of_fileName hName
  · intro hSame path
    have hLists : pairs.map (fun q => child directory q.2.fileName) =
        set.map fun m => child directory m.fileName := by
      rw [← h.planned, List.map_map]
      exact List.map_congr_left fun q hq => by rw [hSame q hq]; rfl
    rw [hLists]

/-- Where kompose makes the manifests, those are reported that are in the directory in the end. -/
theorem written_of_convertByKompose {e : CommandLine.Surroundings} {o : ConvertOptions}
    {a : CommandLine.ConvertArguments} {x y : CommandLine.Session} {report : ConversionReport}
    (h : e.convertByKompose settings o p a x = (.ok report, y)) :
    report.written = Manifest.filesIn y.workspace a.directory := by
  rw [CommandLine.Surroundings.convertByKompose] at h
  obtain ⟨_, _, -, hMaking⟩ := Action.of_bind_eq_ok h
  obtain ⟨_, _, -, hCopying⟩ := Action.of_bind_eq_ok hMaking
  obtain ⟨_, _, -, hCalling⟩ := Action.of_bind_eq_ok hCopying
  obtain ⟨_, _, -, hRevising⟩ := Action.of_bind_eq_ok hCalling
  obtain ⟨_, z, -, hListing⟩ := Action.of_bind_eq_ok hRevising
  obtain ⟨written, z', hList, hReturn⟩ := Action.of_bind_eq_ok hListing
  obtain ⟨hWritten, rfl⟩ := Prod.mk.inj hList
  obtain ⟨hReport, rfl⟩ := Prod.mk.inj hReturn
  rw [← Except.ok.inj hReport, ← Except.ok.inj hWritten]

/-- The paths that a conversion reports as written are those of the manifests in the directory in
the end exactly when it reports no daemon set, which it does not when no service of the project is
to run on every node. The directory is empty before or is not there, or at least holds no file when
it has been made. Where kompose makes the manifests, the paths are always the same. -/
theorem written_eq_filesIn_iff {report : ConversionReport} (hSound : w.files.Sound)
    (hNoFile : ∀ e ∈ (prepareDirectory directory w).2.list directory, e.2 = .directory)
    (h : convert settings options p directory w = (.ok report, v)) :
    ((∀ path, path ∈ report.written ↔ path ∈ Manifest.filesIn v directory) ↔
        report.revision.daemonSets = []) ∧
      ((∀ key ∈ keys p.services, options.runsEverywhere (Name.normalize key) = false) →
        report.revision.daemonSets = []) ∧
      ∀ (e : CommandLine.Surroundings) (a : CommandLine.ConvertArguments)
        (x y : CommandLine.Session) (other : ConversionReport),
        e.convertByKompose settings options p a x = (.ok other, y) →
          other.written = Manifest.filesIn y.workspace a.directory := by
  obtain ⟨hNonempty, vars, plan, ordered, pairs, -, hPlan, hWritten, hPerm, hRemains, hFiles,
    hNone⟩ := remains_of_convert hSound hNoFile h
  obtain ⟨space, hPlanned⟩ := planned_planOf hPlan
  have hReady : ∀ m ∈ ordered, m.Ready options space := fun m hm =>
    hPlanned.ready m (hPerm.subset hm)
  have hApart : (ordered.map Manifest.slot).Nodup :=
    (hPerm.map Manifest.slot).nodup_iff.2 hPlanned.nodup_slots
  refine ⟨?_, fun hNowhere => ?_, fun e a x y other => written_of_convertByKompose⟩
  · rw [hNone, ← hRemains.paths_eq_iff hReady hApart hNonempty]
    refine forall_congr' fun path => ?_
    rw [hWritten, hFiles.mem_iff, (hPerm.map _).mem_iff]
  · rw [hNone]
    intro q hq
    refine (hRemains.leaves q hq).eq_of_not ?_
    rintro ⟨hKind, hRuns⟩
    have hPlace : q.1 ∈ plan.manifests := hPerm.subset (hRemains.planned ▸ List.mem_map_of_mem hq)
    rcases hPlanned.mem_manifests hPlace with hSpace | ⟨e, he, hWorkload⟩
    · rw [hSpace] at hKind
      exact absurd hKind (by simp [Manifest.ofNamespace])
    · have hStem : q.1.stem = Name.normalize e.1 := Workload.stem_of_mem_manifests hWorkload
      rw [hStem, hNowhere e.1 (OrderedMap.mem_keys_of_mem he)] at hRuns
      exact absurd hRuns (by simp)

/-! ### A web server on one node and on every node -/

/-- The web server with no service that is to run on every node. -/
def onOneNode : ConvertOptions := { onEveryNode with daemonServices := [] }

theorem sound_cleanHome : cleanHome.files.Sound := by
  have hHome : (Workspace.homeWith []).files.Sound :=
    sound_homeWith (by decide) (List.forall_mem_nil _) (List.forall_mem_nil _)
  exact hHome

theorem prepared_out : (prepareDirectory "out" cleanHome).2.list "out" = [] := by
  rw [prepareDirectory_out]
  exact (vacant_out.prepared prepareDirectory_out (by decide) (by decide)).2

/-- A conversion of the web server into an empty directory succeeds, with a clean report, and leaves
its settled manifests. -/
theorem convert_webProject {w w₁ : Workspace} {l : Location}
    (hPlan : planOf .standard options webProject.services [] = .ok webPlan)
    (hVars : webProject.dotEnv w = .ok []) (hMade : prepareDirectory "out" w = (.ok (), w₁))
    (hLeads : w₁.LeadsTo "out" l) (hNil : w₁.entries l = []) :
    ∃ report v, convert .standard options webProject "out" w = (.ok report, v) ∧
      report.revision.Clean ∧ Workspace.SameOutside l w₁ v ∧
      (Manifest.filesIn v "out").Perm
        (webPlan.manifests.map fun m => child "out" (options.settled m).fileName) := by
  have hShort : ∀ m ∈ webPlan.manifests,
      (child "out" m.fileName).utf8ByteSize ≤ Path.lengthLimit := by
    decide +kernel
  have hAlone : LeftAlone options webPlan "out" (w₁.entries l) := by
    rw [hNil]
    exact leftAlone_nil options webPlan "out"
  obtain ⟨report, copy, v, hConvert, hClean, hCopied, hFilled⟩ :=
    convert_of_leftAlone hVars hPlan hMade hLeads hAlone hShort
      fun m hm => (readsBack_webPlan m hm).1
  have hStems : ∀ m ∈ webPlan.manifests.map options.settled, Name.normalize m.stem = m.stem := by
    have hPlanned : ∀ m ∈ webPlan.manifests, Name.normalize m.stem = m.stem := by decide +kernel
    refine List.forall_mem_map.2 fun m hm => ?_
    rw [options.stem_settled, hPlanned m hm]
  have hKept : ∀ e ∈ copy ++ w₁.entries l, Manifest.IsNoManifest "out" e := by
    rw [hNil, List.append_nil]
    exact hCopied.isNoManifest (by decide)
  have hEntries : webPlan.manifests.map (fun m => (options.settled m).entry) =
      (webPlan.manifests.map options.settled).map Manifest.entry := by
    rw [List.map_map]
    rfl
  rw [hEntries] at hFilled
  have hFiles := Manifest.filesIn_perm_entries hStems hKept hFilled
  rw [List.map_map] at hFiles
  exact ⟨report, v, hConvert, hClean, hFilled.same, hFiles⟩

/-- The web server is converted into a directory that is made in the home. -/
theorem convert_webProject_cleanHome
    (hPlan : planOf .standard options webProject.services [] = .ok webPlan) :
    ∃ report v, convert .standard options webProject "out" cleanHome = (.ok report, v) ∧
      (Manifest.filesIn v "out").Perm
        (webPlan.manifests.map fun m => child "out" (options.settled m).fileName) := by
  obtain ⟨report, v, hConvert, -, -, hFiles⟩ :=
    convert_webProject hPlan (dotEnv_cleanHome (by decide)) prepareDirectory_out leadsTo_out rfl
  exact ⟨report, v, hConvert, hFiles⟩

/-- With the web server on one node, the reported paths are those of the manifests. -/
theorem written_eq_filesIn_onOneNode :
    ∃ report v, convert .standard onOneNode webProject "out" cleanHome = (.ok report, v) ∧
      ∀ path, path ∈ report.written ↔ path ∈ Manifest.filesIn v "out" := by
  have hPlan : planOf .standard onOneNode webProject.services [] = .ok webPlan :=
    planOf_webProject
  obtain ⟨report, v, hConvert, -⟩ := convert_webProject_cleanHome hPlan
  have hNoFile : ∀ e ∈ (prepareDirectory "out" cleanHome).2.list "out", e.2 = .directory := by
    rw [prepared_out]
    exact List.forall_mem_nil _
  obtain ⟨hIff, hNone, -⟩ := written_eq_filesIn_iff sound_cleanHome hNoFile hConvert
  exact ⟨report, v, hConvert, hIff.2 (hNone (by decide))⟩

/-- With the web server on every node, its deployment is reported and is not there, and its daemon
set is there and is not reported. -/
theorem written_ne_filesIn_onEveryNode :
    cleanHome.exists? "out" = false ∧
      ∃ report v, convert .standard onEveryNode webProject "out" cleanHome = (.ok report, v) ∧
        "out/web-deployment.yaml" ∈ report.written ∧
        "out/web-deployment.yaml" ∉ Manifest.filesIn v "out" ∧
        "out/web-daemonset.yaml" ∈ Manifest.filesIn v "out" ∧
        "out/web-daemonset.yaml" ∉ report.written := by
  refine ⟨exists?_cleanHome isName_out, ?_⟩
  obtain ⟨report, v, hConvert, hFiles⟩ := convert_webProject_cleanHome planOf_webProject
  have hNoFile : ∀ e ∈ (prepareDirectory "out" cleanHome).2.list "out", e.2 = .directory := by
    rw [prepared_out]
    exact List.forall_mem_nil _
  obtain ⟨-, vars, plan, -, -, hVars, hPlan, hWritten, -⟩ :=
    remains_of_convert sound_cleanHome hNoFile hConvert
  have hNone : webProject.dotEnv cleanHome = .ok [] := dotEnv_cleanHome (by decide)
  obtain rfl : [] = vars := Except.ok.inj (hNone.symm.trans hVars)
  obtain rfl : webPlan = plan := Except.ok.inj (planOf_webProject.symm.trans hPlan)
  have hPlanned : webPlan.manifests.map (fun m => child "out" m.fileName) =
      ["out/namespace.yaml", "out/web-deployment.yaml", "out/web-service.yaml"] := by
    decide +kernel
  have hSettled : webPlan.manifests.map (fun m => child "out" (onEveryNode.settled m).fileName) =
      ["out/namespace.yaml", "out/web-daemonset.yaml", "out/web-service.yaml"] := by
    decide +kernel
  refine ⟨report, v, hConvert, ?_⟩
  rw [hWritten, hFiles.mem_iff, hFiles.mem_iff, hPlanned, hSettled]
  decide

end KubeCompose
