import KubeCompose.Proofs.Independence
import KubeCompose.Proofs.Leftovers
import KubeCompose.Proofs.Readable
import KubeCompose.Proofs.RoundTrip.Simple

/-!
# Conversions that are made again

A conversion that is made again writes each manifest over the settled one that the first conversion
left, and each deployment beside the daemon set that was made of it. Its revision then settles the
manifests as the first one did, so that the same files are left, and finds nothing to report. The
variables of the project have to be what they were: `convert_again` asks that the first conversion
does not make their file.
-/

namespace KubeCompose

open Compose (Project)
open OrderedMap (keys)
open KubeCompose.Path (child)
open Workspace (Alike Filled homeWith)

variable {settings : Settings} {options : ConvertOptions} {p : Project} {vars : DotEnv}
  {plan : Plan} {space directory path : String} {l : Location} {w w₁ v : Workspace} {m : Manifest}
  {set : List Manifest} {others kept : OrderedMap String Entry}

/-! ### Revisions that report no problem -/

namespace Manifest

variable {r : RevisionReport}

/-- What has been noted stays noted when a text is stored. -/
theorem problems_store (target : Option String) (text : String) (w : Workspace)
    (r : RevisionReport) : r.problems <+: (Revision.store path target text w r).2.problems := by
  rw [Revision.store]
  cases w.write (target.getD path) text.toUTF8 with
  | error e => exact List.prefix_append _ _
  | ok v =>
    cases target with
    | none => exact List.prefix_refl _
    | some target =>
      simp only
      split
      · exact List.prefix_refl _
      · exact List.prefix_append _ _

/-- What has been noted stays noted in the steps of a revision. -/
theorem problems_reviseFile (o : Revision) (state : Workspace × RevisionReport) (path : String) :
    state.2.problems <+: (o.reviseFile state path).2.problems := by
  obtain ⟨w, r⟩ := state
  rw [Revision.reviseFile]
  simp only
  split
  · exact List.prefix_append _ _
  · split
    · exact List.prefix_append _ _
    · split
      · exact List.prefix_append _ _
      · exact problems_store _ _ w { r with moved := r.moved + _ }

theorem problems_renameFile (state : Workspace × RevisionReport) (path : String) :
    state.2.problems <+: (Revision.renameFile state path).2.problems := by
  obtain ⟨w, r⟩ := state
  rw [Revision.renameFile]
  simp only
  split
  · exact List.prefix_refl _
  · split
    · split
      · exact List.prefix_append _ _
      · split
        · exact List.prefix_refl _
        · exact List.prefix_append _ _
    · exact List.prefix_refl _

/-- When nothing is noted in the end, nothing was at the start. -/
theorem problems_eq_nil_of_foldl {step : Workspace × RevisionReport → String →
      Workspace × RevisionReport}
    (hStep : ∀ state path, state.2.problems <+: (step state path).2.problems)
    {files : List String} {state : Workspace × RevisionReport}
    (h : (files.foldl step state).2.problems = []) : state.2.problems = [] := by
  have hPrefix : state.2.problems <+: (files.foldl step state).2.problems :=
    List.foldlRecOn (motive := fun last : Workspace × RevisionReport =>
      state.2.problems <+: last.2.problems) files step (List.prefix_refl _)
      fun last hLast path _ => hLast.trans (hStep last path)
  rw [h] at hPrefix
  exact List.prefix_nil.1 hPrefix

/-- When nothing is noted, nothing was in the place of the settled manifest. -/
theorem free_of_reviseFile (hReady : m.Ready options space) (hReads : m.document.ReadsBack)
    (hShort : (child directory m.fileName).utf8ByteSize ≤ Path.lengthLimit)
    (hFilled : Filled w₁ directory l (m.entry :: others) w)
    (hDirectories : ∀ e ∈ others, e.1 = (options.settled m).fileName → e.2 = .directory)
    (hNone : ((options.revision space).reviseFile (w, r)
      (child directory m.fileName)).2.problems = []) :
    (options.settled m).fileName ∉ keys others := by
  by_cases hDaemon : m.kind = .deployment ∧ options.runsEverywhere m.stem = true
  · intro hTaken
    obtain ⟨⟨found, entry⟩, hFound, hSame⟩ := List.mem_map.1 hTaken
    obtain rfl : found = (options.settled m).fileName := hSame
    obtain rfl : entry = .directory := hDirectories _ hFound rfl
    have hEntry : w.folder l (options.settled m).fileName = some .directory :=
      hFilled.find?_of_mem (List.mem_cons_of_mem _ hFound)
    have hOther : Path.IsName (options.settled m).fileName :=
      isName_fileName (by rw [options.stem_settled, hReady.stem])
    have hReaches := Workspace.reaches_withFileName hFilled.leadsTo (isName_fileName hReady.stem)
      hOther (options.utf8ByteSize_fileName_settled m) hShort
    have hWrite := Workspace.write_of_reaches (by simp [hEntry]) hReaches
      (options.settled m).document.render.toUTF8
    rw [if_pos (Folder.hasDirectory_iff.2 hEntry)] at hWrite
    rw [reviseFile_eq_store hReady hReads hShort hFilled, if_pos hDaemon, Revision.store,
      Option.getD_some, hWrite] at hNone
    exact absurd hNone (List.concat_ne_nil _ _)
  · have hName : (options.settled m).fileName = m.fileName := by
      rw [ConvertOptions.settled, if_neg hDaemon]
      rfl
    rw [hName]
    exact (List.nodup_cons.1 hFilled.distinct).1

/-- The steps on the files of planned manifests settle them when nothing is noted. -/
theorem foldl_reviseFile_of_none (hSet : Standing options space directory kept set)
    (hReads : ∀ m ∈ set, m.document.ReadsBack)
    (hFilled : Filled w₁ directory l (set.map entry ++ kept) w) (hBase : w₁.entries l ⊆ kept)
    (hClean : r.Clean)
    (hNone : ((set.map fun m => child directory m.fileName).foldl
      (options.revision space).reviseFile (w, r)).2.problems = []) :
    ∃ w' r', (set.map fun m => child directory m.fileName).foldl
        (options.revision space).reviseFile (w, r) = (w', r') ∧
      Filled w₁ directory l ((set.map fun m => (options.settled m).entry) ++ kept) w' ∧
      r'.Clean := by
  induction set generalizing kept w r with
  | nil => exact ⟨w, r, rfl, hFilled, hClean⟩
  | cons m set ih =>
    have hMem := List.mem_cons_self (a := m) (l := set)
    obtain ⟨hReadsHead, hReadsRest⟩ := List.forall_mem_cons.1 hReads
    rw [List.map_cons, List.foldl_cons] at hNone
    have hHead := problems_eq_nil_of_foldl (problems_reviseFile (options.revision space)) hNone
    have hFree := free_of_reviseFile (hSet.ready m hMem) hReadsHead (hSet.short m hMem) hFilled
      hSet.directories_head hHead
    obtain ⟨u, s, hStep, hStepFilled, hStepClean⟩ := reviseFile_entry (hSet.ready m hMem)
      hReadsHead (hSet.short m hMem) hFilled (List.subset_append_of_subset_right _ hBase) hFree
      hClean
    rw [hStep] at hNone
    have hRest : Standing options space directory ((options.settled m).entry :: kept) set :=
      hSet.of_settled
    obtain ⟨w', r', hFold, hAll, hLast⟩ := ih hRest hReadsRest
      (hStepFilled.of_perm List.perm_middle.symm) (List.subset_cons_of_subset _ hBase) hStepClean
      hNone
    refine ⟨w', r', ?_, hAll.of_perm List.perm_middle, hLast⟩
    rw [List.map_cons, List.foldl_cons, hStep, hFold]

/-- A revision of a directory of planned manifests that reports no problem settles all of them. -/
theorem run_of_none (hSet : Standing options space directory kept set)
    (hReads : ∀ m ∈ set, m.document.ReadsBack)
    (hKept : ∀ e ∈ kept, IsNoManifest directory e) (hBase : w₁.entries l ⊆ kept)
    (hFilled : Filled w₁ directory l (set.map entry ++ kept) w)
    (hNone : ((options.revision space).run directory w).2.problems = []) :
    ∃ w' r', (options.revision space).run directory w = (w', r') ∧
      Filled w₁ directory l ((set.map fun m => (options.settled m).entry) ++ kept) w' ∧
      r'.Clean := by
  have hRun := run_of_steps (fun m => [options.settled m])
    (fun m hm => (hSet.ready m hm).stem) (by simp) hKept hFilled
    fun ordered hPerm hListed hOrdered => by
      rw [map_entry_settled]
      refine foldl_reviseFile_of_none (hSet.of_perm hPerm)
        (fun m hm => hReads m (hPerm.subset hm)) hOrdered hBase ⟨rfl, rfl, rfl⟩ ?_
      rw [← hListed]
      exact problems_eq_nil_of_foldl problems_renameFile hNone
  rwa [map_entry_settled] at hRun

/-! ### Writing over what an earlier conversion left -/

/-- A manifest is written over the file that a conversion left under its name, or beside its daemon
set when it left no such file. -/
theorem writeTo_again (hReady : m.Ready options space)
    (hShort : (child directory m.fileName).utf8ByteSize ≤ Path.lengthLimit)
    (hFilled : Filled w₁ directory l ((options.staying m).map entry ++ others) w)
    (hBase : w₁.entries l ⊆ others) (hNew : m.fileName ∉ keys others) :
    ∃ w', m.writeTo directory w = (.ok (child directory m.fileName), w') ∧
      Filled w₁ directory l (m.entry :: others) w' := by
  by_cases hDaemon : m.kind = .deployment ∧ options.runsEverywhere m.stem = true
  · rw [ConvertOptions.staying, if_pos hDaemon] at hFilled
    exact writeTo_new hReady hShort hFilled hNew
  · have hOld : (options.staying m).map entry =
        [(m.fileName, .file (options.settled m).document.render.toUTF8 false)] := by
      rw [ConvertOptions.staying, if_neg hDaemon, ConvertOptions.settled, if_neg hDaemon]
      rfl
    rw [hOld] at hFilled
    have hReaches :=
      Workspace.reaches_child hFilled.leadsTo (isName_fileName hReady.stem) hShort
    have hWrite := Workspace.write_file hReaches (hFilled.find?_of_mem (List.mem_cons_self ..))
      m.document.render.toUTF8
    exact ⟨_, writeTo_eq_ok hReady hWrite, hFilled.put_again hBase _⟩

theorem slot_of_mem_staying {n : Manifest} (h : n ∈ options.staying m) : n.slot = m.slot := by
  rw [ConvertOptions.staying] at h
  split at h
  · cases h
  · rw [List.mem_singleton.1 h, options.slot_settled]

/-- Manifests whose slots differ are written over what a conversion left of them. -/
theorem mapM_writeTo_again (hReady : ∀ m ∈ set, m.Ready options space)
    (hShort : ∀ m ∈ set, (child directory m.fileName).utf8ByteSize ≤ Path.lengthLimit)
    (hApart : (set.map slot).Nodup)
    (hFilled : Filled w₁ directory l ((set.flatMap options.staying).map entry ++ kept) w)
    (hBase : w₁.entries l ⊆ kept) (hNew : ∀ m ∈ set, m.fileName ∉ keys kept) :
    ∃ written w',
      (set.mapM fun m => m.writeTo directory : Action ConversionError (List String)) w =
        (.ok written, w') ∧
      Filled w₁ directory l (set.map entry ++ kept) w' := by
  induction set generalizing kept w with
  | nil => exact ⟨[], w, rfl, hFilled⟩
  | cons m set ih =>
    obtain ⟨hReadyHead, hReadyRest⟩ := List.forall_mem_cons.1 hReady
    obtain ⟨hShortHead, hShortRest⟩ := List.forall_mem_cons.1 hShort
    obtain ⟨hNewHead, hNewRest⟩ := List.forall_mem_cons.1 hNew
    rw [List.map_cons, List.nodup_cons] at hApart
    rw [List.flatMap_cons, List.map_append, List.append_assoc] at hFilled
    have hOther : ∀ n ∈ set, m.slot ≠ n.slot := fun n hn hSame =>
      hApart.1 (hSame ▸ List.mem_map_of_mem hn)
    have hFree : m.fileName ∉ keys ((set.flatMap options.staying).map entry ++ kept) := by
      rw [keys, List.map_append, List.mem_append, not_or]
      refine ⟨fun hMem => ?_, hNewHead⟩
      obtain ⟨e, he, hName⟩ := List.mem_map.1 hMem
      obtain ⟨left, hLeft, rfl⟩ := List.mem_map.1 he
      obtain ⟨n, hn, hStays⟩ := List.mem_flatMap.1 hLeft
      have hSlot := slot_eq_of_fileName (m := left) hName
      rw [slot_of_mem_staying hStays] at hSlot
      exact hOther n hn hSlot.symm
    obtain ⟨u, hWrite, hHead⟩ := writeTo_again hReadyHead hShortHead hFilled
      (List.subset_append_of_subset_right _ hBase) hFree
    have hNewNext : ∀ n ∈ set, n.fileName ∉ keys (m.entry :: kept) := by
      intro n hn
      simp only [keys, List.map_cons, List.mem_cons, not_or]
      exact ⟨fun hSame => hOther n hn (slot_eq_of_fileName hSame).symm, hNewRest n hn⟩
    obtain ⟨written, w', hRest, hAll⟩ := ih hReadyRest hShortRest hApart.2
      (hHead.of_perm List.perm_middle.symm) (List.subset_cons_of_subset _ hBase) hNewNext
    refine ⟨child directory m.fileName :: written, w', ?_, hAll.of_perm List.perm_middle⟩
    rw [List.mapM_cons, Action.bind_of_ok hWrite, Action.bind_of_ok hRest]
    rfl

end Manifest

/-! ### The variables of a project that is converted again -/

theorem Workspace.isFile_of_readText {text : String} (h : w.readText path = .ok text) :
    w.isFile path = true := by
  rw [Workspace.readText, Workspace.read] at h
  rw [Workspace.isFile]
  cases hEntry : w.entryAt path with
  | error e => simp [hEntry] at h
  | ok entry =>
    cases entry with
    | file bytes x => rfl
    | _ => simp [hEntry] at h

/-- Two workspaces in which the variables of a project are the same: they stand in one file, or
there are none. -/
inductive SameVariables (p : Project) (w v : Workspace) : Prop where
  | present {k : Location} {bytes : ByteArray} {x : Bool}
    (before : w.place p.variablesPath true = .ok (.present k (.file bytes x)))
    (after : v.place p.variablesPath true = .ok (.present k (.file bytes x)))
  | absent (before : w.exists? p.variablesPath = false) (after : v.exists? p.variablesPath = false)

/-- Where all is still there that was, the variables of a project are the same unless their file is
new. -/
theorem sameVariables_of_larger (hVars : p.dotEnv w = .ok vars) (hHere : v.here = w.here)
    (hLook : ∀ k entry, w.files.look? k = some entry → v.files.look? k = some entry)
    (hNotNew : v.exists? p.variablesPath = true → w.exists? p.variablesPath = true) :
    SameVariables p w v := by
  cases hBefore : w.exists? p.variablesPath with
  | false =>
    refine .absent hBefore ?_
    rw [← Bool.not_eq_true]
    intro hAfter
    rw [hNotNew hAfter] at hBefore
    cases hBefore
  | true =>
    rw [Project.dotEnv, if_pos hBefore] at hVars
    cases hText : w.readText p.variablesPath with
    | error e =>
      rw [hText] at hVars
      cases hVars
    | ok text =>
      obtain ⟨k, bytes, x, hPlace⟩ :=
        Workspace.exists_place_of_isFile (Workspace.isFile_of_readText hText)
      exact .present hPlace (Workspace.place_of_extends hHere hLook hPlace)

namespace SameVariables

variable (h : SameVariables p w v)
include h

theorem dotEnv_eq : p.dotEnv v = p.dotEnv w := by
  cases h with
  | present hBefore hAfter =>
    have hEntry : v.entryAt p.variablesPath = w.entryAt p.variablesPath := by
      rw [Workspace.entryAt, Workspace.entryAt, hBefore, hAfter]
    rw [Project.dotEnv, Project.dotEnv, Workspace.exists?, Workspace.exists?, Workspace.readText,
      Workspace.readText, Workspace.read, Workspace.read, hEntry]
  | absent hBefore hAfter =>
    simp only [Project.dotEnv, hBefore, hAfter, Bool.false_eq_true, if_false]

/-- The variables are the same also in a workspace between the two. -/
theorem between (hHere : w₁.here = w.here)
    (hLook : ∀ k entry, w.files.look? k = some entry → w₁.files.look? k = some entry)
    (hHere' : v.here = w₁.here)
    (hLook' : ∀ k entry, w₁.files.look? k = some entry → v.files.look? k = some entry) :
    SameVariables p w₁ v := by
  cases h with
  | present hBefore hAfter =>
    exact .present (Workspace.place_of_extends hHere hLook hBefore) hAfter
  | absent hBefore hAfter =>
    refine .absent ?_ hAfter
    rw [Workspace.exists?, Workspace.entryAt] at hAfter ⊢
    cases hPlace : w₁.place p.variablesPath true with
    | error e => rfl
    | ok place =>
      cases place with
      | absent k => rfl
      | «present» k entry =>
        rw [Workspace.place_of_extends hHere' hLook' hPlace] at hAfter
        exact hAfter

/-- The copy of the variables in a directory is made again, over itself. -/
theorem copyVariables_again {copy : OrderedMap String Entry} (hCopied : Copied p w copy)
    (hDirectories : ∀ e ∈ w.entries l, e.2 = .directory)
    (hShort : (child directory Compose.variablesName).utf8ByteSize ≤ Path.lengthLimit)
    (hFilled : Filled w directory l kept v) (hKept : copy ⊆ kept) :
    ∃ copied u, copyVariables p directory v = (.ok copied, u) ∧ Filled w directory l kept u := by
  cases h with
  | @present k bytes x hBefore hAfter =>
    have hEntry : w.entryAt p.variablesPath = .ok (.file bytes x) := by
      rw [Workspace.entryAt, hBefore]
    have hThere : v.isFile p.variablesPath = true := by
      rw [Workspace.isFile, Workspace.entryAt, hAfter]
    have hMem : (Compose.variablesName, Entry.file bytes x) ∈ kept := by
      obtain ⟨old, executable, hSource, hCopy⟩ := hCopied.present (by rw [Workspace.isFile, hEntry])
      rw [hEntry, Except.ok.injEq, Entry.file.injEq] at hSource
      obtain ⟨rfl, rfl⟩ := hSource
      exact hKept (hCopy ▸ List.mem_singleton_self _)
    -- the variables stand outside the directory, which held nothing but directories
    have hApart : k ≠ l ++ [Compose.variablesName] := by
      rintro rfl
      have hLook := Workspace.look?_of_place hBefore
      rw [FileTree.look?_child] at hLook
      have hDirectory := hDirectories _ (OrderedMap.mem_of_find? hLook)
      simp at hDirectory
    have hFind := hFilled.find?_of_mem hMem
    have hReaches := Workspace.reaches_child hFilled.leadsTo isName_variablesName hShort
    obtain ⟨u, hCopy, hSame, hEntries⟩ := Workspace.copy_file hReaches hAfter hApart
      fun entry hOld => ⟨bytes, x, Option.some.inj (hOld.symm.trans hFind)⟩
    rw [OrderedMap.insert_eq_self hFind] at hEntries
    refine ⟨some (child directory Compose.variablesName), u, ?_, hFilled.leads, hFilled.base,
      hFilled.same.trans hSame, hEntries ▸ hFilled.perm, hFilled.distinct⟩
    rw [copyVariables, if_pos hThere]
    simp only [hCopy]
  | absent hBefore hAfter =>
    have hNotThere : v.isFile p.variablesPath = false := by
      rw [Workspace.exists?] at hAfter
      rw [Workspace.isFile]
      cases hEntry : v.entryAt p.variablesPath with
      | error e => rfl
      | ok entry => simp [hEntry, Except.isOk, Except.toBool] at hAfter
    refine ⟨none, v, ?_, hFilled⟩
    rw [copyVariables, if_neg (by simp [hNotThere])]

end SameVariables

/-! ### Conversions -/

section Again

variable (hPlanned : Planned settings options p.services vars space plan)
  (hShort : ∀ m ∈ plan.manifests, (child directory m.fileName).utf8ByteSize ≤ Path.lengthLimit)
  (hReads : ∀ m ∈ plan.manifests,
    m.document.ReadsBack ∧ (options.settled m).document.ReadsBack)
include hPlanned hShort hReads

/-- The manifests of a plan and what an earlier conversion left of them. -/
theorem Planned.again (hNonempty : directory ≠ "") (kept : OrderedMap String Entry) :
    Manifest.Again options space directory kept
      (plan.manifests ++ plan.manifests.flatMap options.leftover) where
  ready := List.forall_mem_append.2 ⟨hPlanned.ready, fun left hLeft => by
    obtain ⟨m, hm, hOf⟩ := List.mem_flatMap.1 hLeft
    exact hPlanned.ready_leftover m hm left hOf⟩
  reads := List.forall_mem_append.2 ⟨fun m hm => (hReads m hm).1, fun left hLeft => by
    obtain ⟨m, hm, hOf⟩ := List.mem_flatMap.1 hLeft
    rw [(ConvertOptions.mem_leftover.1 hOf).2]
    exact (hReads m hm).2⟩
  short := List.forall_mem_append.2 ⟨hShort, fun left hLeft => by
    obtain ⟨m, hm, hOf⟩ := List.mem_flatMap.1 hLeft
    rw [(ConvertOptions.mem_leftover.1 hOf).2]
    have hName := Manifest.isName_fileName (hPlanned.ready m hm).stem
    have hSettled : Path.IsName (options.settled m).fileName :=
      Manifest.isName_fileName (by rw [options.stem_settled, (hPlanned.ready m hm).stem])
    exact Nat.le_trans (Path.utf8ByteSize_child_le hNonempty hName hSettled
      (options.utf8ByteSize_fileName_settled m)) (hShort m hm)⟩
  there := by
    refine List.forall_mem_append.2 ⟨fun m hm left hLeft => ?_, fun m hm left hLeft => ?_⟩
    · exact .inl (List.mem_append_right _ (List.mem_flatMap.2 ⟨m, hm, hLeft⟩))
    · obtain ⟨n, -, hOf⟩ := List.mem_flatMap.1 hm
      have hKind := (ConvertOptions.mem_leftover.1 hLeft).1.1
      rw [ConvertOptions.kind_of_mem_leftover hOf] at hKind
      cases hKind

/-- Settled manifests that are written and revised again are left as they were. -/
theorem fill_again (hKept : ∀ e ∈ kept, Manifest.IsNoManifest directory e)
    (hNew : ∀ m ∈ plan.manifests, m.fileName ∉ keys kept) (hBase : w₁.entries l ⊆ kept)
    (hFilled : Filled w₁ directory l
      ((plan.manifests.map fun m => (options.settled m).entry) ++ kept) w) :
    ∃ filled w', fill (options.revision space) plan.manifests directory w = (.ok filled, w') ∧
      Filled w₁ directory l
        ((plan.manifests.map fun m => (options.settled m).entry) ++ kept) w' ∧
      filled.2.Clean := by
  have hNonempty : directory ≠ "" := (Workspace.leadsTo_iff.1 hFilled.leadsTo).2.1
  let left := plan.manifests.flatMap options.leftover
  have hEntries : plan.manifests.map (fun m => (options.settled m).entry) =
      (plan.manifests.map options.settled).map Manifest.entry := by
    rw [List.map_map]
    rfl
  -- the daemon sets stand apart from what the manifests are written over
  have hStart : Filled w₁ directory l
      ((plan.manifests.flatMap options.staying).map Manifest.entry ++
        (left.map Manifest.entry ++ kept)) w := by
    have hPerm := ConvertOptions.staying_append_leftover_perm options plan.manifests
    rw [hEntries] at hFilled
    rw [← List.append_assoc, ← List.map_append]
    exact hFilled.of_perm ((hPerm.symm.map _).append_right kept)
  have hNewBeside : ∀ m ∈ plan.manifests,
      m.fileName ∉ keys (left.map Manifest.entry ++ kept) := by
    intro m hm hMem
    rw [keys, List.map_append, List.mem_append] at hMem
    refine hMem.elim (fun hLeft => ?_) (hNew m hm)
    obtain ⟨e, he, hName⟩ := List.mem_map.1 hLeft
    obtain ⟨daemonSet, hDaemonSet, rfl⟩ := List.mem_map.1 he
    obtain ⟨n, hn, hOf⟩ := List.mem_flatMap.1 hDaemonSet
    obtain ⟨hDaemon, rfl⟩ := ConvertOptions.mem_leftover.1 hOf
    have hSlot := Manifest.slot_eq_of_fileName (m := options.settled n) hName
    rw [options.slot_settled] at hSlot
    obtain rfl := List.inj_on_of_nodup_map hPlanned.nodup_slots hn hm hSlot
    exact ConvertOptions.fileName_settled_ne hDaemon hName
  obtain ⟨written, u, hWrite, hWritten⟩ := Manifest.mapM_writeTo_again hPlanned.ready hShort
    hPlanned.nodup_slots hStart (List.subset_append_of_subset_right _ hBase) hNewBeside
  rw [← List.append_assoc, ← List.map_append] at hWritten
  obtain ⟨w', r, hRun, hRevised, hClean⟩ :=
    Manifest.run_again (hPlanned.again hShort hReads hNonempty kept) hKept hBase hWritten
  have hRevise : (options.revision space).revise directory u = (.ok r, w') := by
    rw [Manifest.Revision.revise,
      if_pos (Workspace.isDirectory_of_leadsTo hWritten.leadsTo), hRun]
  refine ⟨(written, r), w', ?_, ?_, hClean⟩
  · rw [fill, Action.bind_of_ok hWrite, Action.bind_of_ok hRevise]
    rfl
  · rw [hEntries]
    exact hRevised.of_perm
      (((ConvertOptions.staying_leftover_perm options plan.manifests).map _).append_right kept)

end Again

/-- A conversion that no file stands in the way of: it is made without a problem, unless the names
that are asked for cannot be given. -/
def Untroubled : Except ConversionError ConversionReport → Prop
  | .ok report => report.revision.problems = []
  | .error (.name _) => True
  | .error _ => False

/-- How a conversion ends that is made again. -/
inductive Repeats : Except ConversionError ConversionReport →
    Except ConversionError ConversionReport → Prop where
  | refused (e : ConversionError) : Repeats (.error e) (.error e)
  | clean {report report' : ConversionReport} (h : report'.revision.Clean) :
    Repeats (.ok report) (.ok report')

/-- A conversion that succeeded is made again. -/
theorem exists_convert_of_ok {report : ConversionReport} (hSound : w.files.Sound)
    (hBounded : ∀ e ∈ p.services, e.2.Bounded)
    (hNoFile : ∀ e ∈ (prepareDirectory directory w).2.list directory, e.2 = .directory)
    (h : convert settings options p directory w = (.ok report, v))
    (hNone : report.revision.problems = [])
    (hNotNew : v.exists? p.variablesPath = true → w.exists? p.variablesPath = true) :
    ∃ report' u, convert settings options p directory v = (.ok report', u) ∧ Alike v u ∧
      report'.revision.Clean := by
  obtain ⟨vars, plan, space, w₁, l, copy, w₃, hFirst, -, hRevise⟩ :=
    unrevised_of_convert hSound hNoFile h
  have hReads : ∀ m ∈ plan.manifests,
      m.document.ReadsBack ∧ (options.settled m).document.ReadsBack := by
    intro m hm
    obtain ⟨hPlanned, hSettled⟩ := hFirst.planned.readable hBounded m hm
    exact ⟨hPlanned.readsBack, hSettled.readsBack⟩
  have hBase : w₁.entries l ⊆ copy ++ w₁.entries l := List.subset_append_right _ _
  -- what the first conversion leaves
  obtain ⟨w₂, r, hRun, hFilled, -⟩ := Manifest.run_of_none hFirst.standing
    (fun m hm => (hReads m hm).1) hFirst.isNoManifest hBase hFirst.filled
    (by rw [hRevise]; exact hNone)
  obtain ⟨rfl, -⟩ := Prod.mk.inj (hRun.symm.trans hRevise)
  -- the variables
  have hSame : SameVariables p w w₂ := by
    have hLook : ∀ k entry, w.files.look? k = some entry → w₂.files.look? k = some entry :=
      fun k entry hLook => hFilled.look?_mono k entry (hFirst.larger.look k entry hLook)
    exact sameVariables_of_larger hFirst.vars_eq (hFilled.same.here.trans hFirst.larger.here) hLook
      hNotNew
  obtain ⟨copied, u, hCopy, hStart⟩ :=
    (hSame.between hFirst.larger.here hFirst.larger.look hFilled.same.here
      hFilled.look?_mono).copyVariables_again hFirst.copied hFirst.directories
      (utf8ByteSize_variablesName hFirst.planned hFirst.nonempty hFirst.short) hFilled
      (List.subset_append_of_subset_right _ (List.subset_append_left _ _))
  -- the manifests
  have hNew : ∀ m ∈ plan.manifests, m.fileName ∉ keys (copy ++ w₁.entries l) := by
    have hDistinct := hFirst.filled.distinct
    rw [keys, List.map_append, List.nodup_append] at hDistinct
    exact fun m hm hMem =>
      hDistinct.2.2 _ (List.mem_map_of_mem (List.mem_map_of_mem hm)) _ hMem rfl
  obtain ⟨filled, w', hFill, hLast, hClean⟩ :=
    fill_again hFirst.planned hFirst.short hReads hFirst.isNoManifest hNew hBase hStart
  have hStem : plan.namespace.stem = space := by
    rw [hFirst.planned.namespace_eq]
    rfl
  have hPrepare := Workspace.prepareDirectory_of_isDirectory
    (Workspace.isDirectory_of_leadsTo hFilled.leadsTo)
  refine ⟨⟨plan.namespace.stem, directory, filled.1, copied.toList, plan.services.map (·.1),
    filled.2⟩, w', ?_, hFilled.alike hLast (.refl _), hClean⟩
  rw [convert_eq,
    Action.bind_of_ok (Action.ask_of_ok (by rw [hSame.dotEnv_eq, hFirst.vars_eq]; rfl)),
    Action.bind_of_ok (Action.ask_of_ok (by rw [hFirst.plan_eq]; rfl)),
    Action.bind_of_ok hPrepare, Action.bind_of_ok hCopy, hStem, Action.bind_of_ok hFill]
  rfl

/-- What changes nothing but a directory in the home makes no variables beside it. -/
theorem exists?_variables_of_same {es : List (String × Entry)} {v : Workspace}
    (h : Workspace.SameOutside ["home", "out"] (homeWith es) v)
    (hNone : OrderedMap.find? es Compose.variablesName = none) :
    v.exists? Compose.variablesName = false := by
  have hHere : v.here = ["home"] := h.here
  have hHome : v.files.look? v.here = some .directory := by
    rw [hHere, h.look _ (by simp)]
    rfl
  have hEntry : OrderedMap.find? (v.entries ["home"]) Compose.variablesName = none := by
    rw [Workspace.entries, ← FileTree.look?_child, h.look _ (by simp), FileTree.look?_child,
      ← Workspace.entries, Workspace.entries_homeWith, hNone]
  have hReaches := Workspace.reaches_name hHome isName_variablesName
  rw [hHere] at hReaches
  rw [Workspace.exists?, Workspace.entryAt, hReaches.place_eq (by simp [hEntry]) true, hEntry]
  rfl

/-- A conversion that is made again leaves all as it is, and its revision has nothing to report.
The first one was made into a directory that is empty or is not there, or at least holds no file
when it has been made, no file stood in its way, and that of the variables is there afterwards only
when it was there before. -/
theorem convert_again {outcome : Except ConversionError ConversionReport} (hSound : w.files.Sound)
    (hBounded : ∀ e ∈ p.services, e.2.Bounded)
    (hNoFile : ∀ e ∈ (prepareDirectory directory w).2.list directory, e.2 = .directory)
    (h : convert settings options p directory w = (outcome, v)) (hUntroubled : Untroubled outcome)
    (hNotNew : v.exists? p.variablesPath = true → w.exists? p.variablesPath = true) :
    ∃ outcome' u, convert settings options p directory v = (outcome', u) ∧ Alike v u ∧
      Repeats outcome outcome' := by
  cases outcome with
  | ok report =>
    obtain ⟨report', u, hAgain, hAlike, hClean⟩ :=
      exists_convert_of_ok hSound hBounded hNoFile h hUntroubled hNotNew
    exact ⟨.ok report', u, hAgain, hAlike, .clean hClean⟩
  | error e =>
    cases e with
    | name cause =>
      -- nothing was made, so that the same is refused
      obtain rfl : v = w :=
        unchanged_of_convert_eq_error (by simp [ConversionError.IsLate]) (by simp) h
      exact ⟨.error (.name cause), v, h, .refl v, .refused _⟩
    | _ => exact absurd hUntroubled (fun h => h)

/-- A web server that runs on every node is loaded from the home and converted there twice. -/
theorem convert_again_webProject :
    Project.load (homeWith webEntries) "docker-compose.yml" = .ok webProject ∧
      ∃ report v,
        convert .standard onEveryNode webProject "out" (homeWith webEntries) = (.ok report, v) ∧
          report.revision.problems = [] ∧
          ∃ outcome' u, convert .standard onEveryNode webProject "out" v = (outcome', u) ∧
            Alike v u ∧ Repeats (.ok report) outcome' := by
  have hMade : prepareDirectory "out" (homeWith webEntries) = (.ok (), homeWith webEntries) :=
    Workspace.prepareDirectory_of_isDirectory (Workspace.isDirectory_of_leadsTo leadsTo_webEntries)
  have hPath : webProject.variablesPath = Compose.variablesName := by decide
  obtain ⟨report, v, hConvert, hClean, hSame, -⟩ := convert_webProject planOf_webProject
    (dotEnv_homeWith hPath rfl) hMade leadsTo_webEntries rfl
  have hSound : (homeWith webEntries).files.Sound :=
    sound_homeWith (by decide) (by decide) (by simp [webEntries])
  have hNoFile : ∀ e ∈ (prepareDirectory "out" (homeWith webEntries)).2.list "out",
      e.2 = .directory := by
    have hList := Workspace.list_of_leadsTo leadsTo_webEntries
    rw [hMade, List.perm_nil.1 hList]
    exact List.forall_mem_nil _
  have hNotNew : v.exists? webProject.variablesPath = true →
      (homeWith webEntries).exists? webProject.variablesPath = true := by
    rw [hPath, exists?_variables_of_same hSame rfl]
    exact fun h => absurd h Bool.false_ne_true
  exact ⟨load_webEntries, report, v, hConvert, hClean.problems,
    convert_again hSound (Project.bounded_of_load load_webEntries) hNoFile hConvert
      hClean.problems hNotNew⟩

/-! ### Variables that a conversion makes -/

/-- A home in which the variables of the project are a link to a manifest. -/
def linkedHome : Workspace :=
  homeWith
    [("docker-compose.yml", .file "services: \x7b\x7d\n".toUTF8 false),
     (".env", .link "out/namespace.yaml")]

def linkedHomeWithOut : Workspace := linkedHome.put ["home", "out"] .directory

/-- Where the variables are a link, they are looked for where the link leads. -/
theorem place_linked {u : Workspace} (hHere : u.here = ["home"])
    (hHome : u.files.look? ["home"] = some .directory)
    (hLink : u.files.look? ["home", ".env"] = some (.link "out/namespace.yaml")) :
    u.place Compose.variablesName true =
      u.files.walk true 39 ["home"] ["out", "namespace.yaml"] := by
  have hTarget : Path.pieces "out/namespace.yaml" = ["out", "namespace.yaml"] := by decide +kernel
  have hVariables : Path.pieces Compose.variablesName = [Compose.variablesName] :=
    Path.pieces_eq_singleton (by decide)
  rw [Workspace.place_eq_walk (by decide) (by decide) (by decide), hVariables, Workspace.start,
    hHere, if_neg (by decide), FileTree.linkLimit,
    FileTree.walk_link hHome isName_variablesName hLink, if_neg (by decide), hTarget]

theorem dotEnv_linkedHome : bareProject.dotEnv linkedHome = .ok [] := by
  have hPath : bareProject.variablesPath = Compose.variablesName := by decide
  have hNone : linkedHome.files.walk true 39 ["home"] ["out", "namespace.yaml"] =
      .error .notFound :=
    FileTree.walk_missing rfl isName_out rfl (by decide)
  rw [Project.dotEnv, hPath, Workspace.exists?, Workspace.entryAt, place_linked rfl rfl rfl, hNone]
  rfl

theorem exists?_linkedHome : linkedHome.exists? "out" = false :=
  Workspace.exists?_of_absent (place_homeWith_of_none isName_out rfl true)

theorem prepareDirectory_linkedHome :
    prepareDirectory "out" linkedHome = (.ok (), linkedHomeWithOut) :=
  prepareDirectory_of_absent (place_homeWith_of_none isName_out rfl)

theorem leadsTo_linked : linkedHomeWithOut.LeadsTo "out" ["home", "out"] :=
  Workspace.leadsTo_name rfl isName_out rfl

/-- Behind the link stands the manifest of the namespace, once it has been written. -/
theorem place_linked_out {u : Workspace}
    (h : Workspace.SameOutside ["home", "out"] linkedHomeWithOut u)
    (hNoLink : ∀ target,
      u.files.look? (["home", "out"] ++ ["namespace.yaml"]) ≠ some (.link target)) :
    u.place Compose.variablesName true =
      match u.files.look? (["home", "out"] ++ ["namespace.yaml"]) with
      | some entry => .ok (.present (["home", "out"] ++ ["namespace.yaml"]) entry)
      | none => .ok (.absent (["home", "out"] ++ ["namespace.yaml"])) := by
  have hHome : u.files.look? ["home"] = some .directory := h.look _ (by simp)
  have hLink : u.files.look? ["home", ".env"] = some (.link "out/namespace.yaml") :=
    h.look _ (by simp)
  have hOut : u.files.look? (["home"] ++ ["out"]) = some .directory := h.look _ (by simp)
  have hWay : FileTree.Way u.files ["home", "out"] .directory 39 ["home"] ["out"] :=
    .enter hHome isName_out.notIdle isName_out.notUp isName_out.short hOut (by simp) (.done hOut)
  obtain ⟨n, hWalk⟩ : ∃ n, u.files.walk true 39 ["home"] (["out"] ++ ["namespace.yaml"]) =
      u.files.walk true n ["home", "out"] ["namespace.yaml"] :=
    hWay.walk_append (List.cons_ne_nil _ _)
  rw [place_linked h.here hHome hLink]
  exact hWalk.trans (FileTree.walk_name hOut (by decide) hNoLink)

theorem isFile_linkedHomeWithOut : linkedHomeWithOut.isFile Compose.variablesName = false := by
  have hFree : linkedHomeWithOut.files.look? (["home", "out"] ++ ["namespace.yaml"]) = none := rfl
  rw [Workspace.isFile, Workspace.entryAt,
    place_linked_out (.refl _ _) (by rw [hFree]; exact fun _ => by simp), hFree]

theorem short_barePlan :
    ∀ m ∈ barePlan.manifests, (child "out" m.fileName).utf8ByteSize ≤ Path.lengthLimit := by
  decide +kernel

/-- What is left of the plan of the project. -/
def bareEntry : String × Entry :=
  ("namespace.yaml", .file (Manifest.ofNamespace "default").document.render.toUTF8 false)

theorem entries_barePlan :
    (barePlan.manifests.map fun m => (ConvertOptions.standard.settled m).entry) = [bareEntry] := by
  have hName : (Manifest.ofNamespace "default").fileName = "namespace.yaml" := by decide
  change [(Manifest.ofNamespace "default").entry] = _
  rw [Manifest.entry, hName, bareEntry]

/-- The first conversion finds no variables, and leaves the namespace alone in its directory. -/
theorem convert_linkedHome :
    ∃ report v, convert .standard .standard bareProject "out" linkedHome = (.ok report, v) ∧
      report.revision.Clean ∧ Filled linkedHomeWithOut "out" ["home", "out"] [bareEntry] v := by
  have hPath : bareProject.variablesPath = Compose.variablesName := by decide
  have hEmpty : linkedHomeWithOut.entries ["home", "out"] = [] := rfl
  obtain ⟨report, copy, v, hConvert, hClean, hCopied, hFilled⟩ :=
    convert_of_leftAlone dotEnv_linkedHome (planOf_bareProject []) prepareDirectory_linkedHome
      leadsTo_linked (hEmpty ▸ leftAlone_nil ..) short_barePlan
      fun m hm => (readsBack_barePlan m hm).1
  rw [hCopied.absent (by rw [hPath, isFile_linkedHomeWithOut]), hEmpty, entries_barePlan]
    at hFilled
  exact ⟨report, v, hConvert, hClean, hFilled⟩

section Second

variable (hFilled : Filled linkedHomeWithOut "out" ["home", "out"] [bareEntry] v)
include hFilled

/-- Behind the link stands the manifest now. -/
theorem place_linked_second :
    v.place Compose.variablesName true =
      .ok (.present ["home", "out", "namespace.yaml"] bareEntry.2) := by
  have hLook : v.files.look? (["home", "out"] ++ ["namespace.yaml"]) = some bareEntry.2 := by
    rw [FileTree.look?_child]
    exact hFilled.find?_of_mem (List.mem_singleton_self _)
  rw [place_linked_out hFilled.same (by rw [hLook]; exact fun _ => by simp [bareEntry]), hLook]
  rfl

/-- The second conversion finds variables. -/
theorem exists_dotEnv_second : ∃ vars, bareProject.dotEnv v = .ok vars := by
  have hPath : bareProject.variablesPath = Compose.variablesName := by decide
  have hRead : v.read Compose.variablesName =
      .ok (Manifest.ofNamespace "default").document.render.toUTF8 := by
    rw [Workspace.read, Workspace.entryAt, place_linked_second hFilled]
    rfl
  refine ⟨DotEnv.ofText (Manifest.ofNamespace "default").document.render, ?_⟩
  rw [Project.dotEnv, hPath, Workspace.exists?, Workspace.entryAt, place_linked_second hFilled,
    Workspace.readText_of_read hRead]
  rfl

/-- The second conversion copies what it found as variables. -/
theorem copyVariables_second :
    ∃ copied u bytes x, copyVariables bareProject "out" v = (.ok copied, u) ∧
      Filled linkedHomeWithOut "out" ["home", "out"]
        ([bareEntry] ++ [(Compose.variablesName, .file bytes x)]) u := by
  have hPath : bareProject.variablesPath = Compose.variablesName := by decide
  have hThere : v.isFile bareProject.variablesPath = true := by
    rw [hPath, Workspace.isFile, Workspace.entryAt, place_linked_second hFilled]
    rfl
  have hNew : Compose.variablesName ∉ keys [bareEntry] := by decide
  have hStart := (Filled.start hFilled.leadsTo hFilled.distinct_entries).of_perm hFilled.perm
  obtain ⟨copied, copy, u, hCopy, hCopied, hAll⟩ :=
    copyVariables_start bareProject (by decide +kernel) hStart hNew
  obtain ⟨bytes, x, -, rfl⟩ := hCopied.present hThere
  exact ⟨copied, u, bytes, x, hCopy, leadsTo_linked, List.nil_subset _,
    hFilled.same.trans hAll.same, hAll.perm.trans List.perm_append_comm,
    (List.perm_append_comm.map Prod.fst).nodup_iff.1 hAll.distinct⟩

/-- The second conversion leaves a copy of the manifest beside it. -/
theorem convert_second :
    ∃ report u, convert .standard .standard bareProject "out" v = (.ok report, u) ∧
      u.files.look? ["home", "out", ".env"] ≠ none := by
  obtain ⟨vars, hVars⟩ := exists_dotEnv_second hFilled
  obtain ⟨space, hPlanned⟩ := planned_planOf (planOf_bareProject vars)
  obtain ⟨copied, u₁, bytes, x, hCopy, hCopied⟩ := copyVariables_second hFilled
  have hKept : ∀ e ∈ [(Compose.variablesName, Entry.file bytes x)],
      Manifest.IsNoManifest "out" e :=
    List.forall_mem_singleton.2 (.inl (isManifestName_variablesName (by decide)))
  have hNew : ∀ m ∈ barePlan.manifests,
      m.fileName ∉ keys [(Compose.variablesName, Entry.file bytes x)] :=
    fun m _ hMem => fileName_ne_variablesName m (List.mem_singleton.1 hMem)
  obtain ⟨filled, u, hFill, hAll, -⟩ := fill_again hPlanned short_barePlan readsBack_barePlan hKept
    hNew (List.nil_subset _) (entries_barePlan ▸ hCopied)
  have hStem : barePlan.namespace.stem = space := by
    rw [hPlanned.namespace_eq]
    rfl
  have hPrepare := Workspace.prepareDirectory_of_isDirectory
    (Workspace.isDirectory_of_leadsTo hFilled.leadsTo)
  have hLook : u.files.look? (["home", "out"] ++ [Compose.variablesName]) =
      some (.file bytes x) := by
    rw [FileTree.look?_child]
    exact hAll.find?_of_mem (List.mem_append_right _ (List.mem_singleton_self _))
  refine ⟨⟨barePlan.namespace.stem, "out", filled.1, copied.toList,
    barePlan.services.map (·.1), filled.2⟩, u, ?_, ?_⟩
  · rw [convert_eq, Action.bind_of_ok (Action.ask_of_ok (by rw [hVars]; rfl)),
      Action.bind_of_ok (Action.ask_of_ok (by rw [planOf_bareProject]; rfl)),
      Action.bind_of_ok hPrepare, Action.bind_of_ok hCopy, hStem, Action.bind_of_ok hFill]
    rfl
  · intro hNone
    cases hNone.symm.trans hLook

end Second

/-- Where the variables of a project are a link to a manifest, a second conversion finds them and
copies them. -/
theorem not_alike_of_linked :
    linkedHome.exists? "out" = false ∧
      ∃ report v report' u,
        convert .standard .standard bareProject "out" linkedHome = (.ok report, v) ∧
        report.revision.problems = [] ∧
        convert .standard .standard bareProject "out" v = (.ok report', u) ∧
        v.files.look? ["home", "out", ".env"] = none ∧
        u.files.look? ["home", "out", ".env"] ≠ none := by
  obtain ⟨report, v, hFirst, hClean, hFilled⟩ := convert_linkedHome
  obtain ⟨report', u, hSecond, hThere⟩ := convert_second hFilled
  have hNone : v.files.look? (["home", "out"] ++ [Compose.variablesName]) = none := by
    rw [FileTree.look?_child]
    exact hFilled.find?_new (by decide)
  exact ⟨exists?_linkedHome, report, v, report', u, hFirst, hClean.problems, hSecond, hNone, hThere⟩

end KubeCompose
