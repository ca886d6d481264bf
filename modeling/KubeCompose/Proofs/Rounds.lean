import KubeCompose.Proofs.Renaming
import KubeCompose.Proofs.Revising

/-!
# The rounds of a revision in a workspace

In a plain directory the two rounds of a revision are what they are in its folder: each step on the
path of a manifest is the step under its name, keeps the directory plain, and is noted in the
report. Nothing outside the directory changes.
-/

namespace KubeCompose

open KubeCompose.Path (IsName child withFileName)
open Workspace (Plain Fits SameOutside)

namespace Manifest

/-- The name of an entry of a directory that is a manifest. -/
def manifestName? (directory : String) (e : String × Entry) : Option String :=
  match e.2 with
  | .file .. => if isManifestName (child directory e.1) then some e.1 else none
  | _ => none

/-- The names of the manifests in a directory, in order. -/
def manifestNames (w : Workspace) (directory : String) : List String :=
  (w.list directory).filterMap (manifestName? directory)

variable {w : Workspace} {directory name : String} {l : Location} {r : RevisionReport}
  {o : Revision}

theorem manifestName?_eq_some {e : String × Entry} :
    manifestName? directory e = some name ↔
      e.1 = name ∧ isManifestName (child directory name) = true ∧ e.2.IsFile := by
  obtain ⟨found, entry⟩ := e
  cases entry with
  | file content executable =>
    simp only [manifestName?, Option.ite_none_right_eq_some, Option.some.injEq]
    constructor
    · rintro ⟨hManifest, rfl⟩
      exact ⟨rfl, hManifest, content, executable, rfl⟩
    · rintro ⟨rfl, hManifest, -⟩
      exact ⟨hManifest, rfl⟩
  | directory => simp [manifestName?, FileTree.not_isFile_directory]
  | link target => simp [manifestName?, FileTree.not_isFile_link]

theorem filesIn_eq (w : Workspace) (directory : String) :
    filesIn w directory = (manifestNames w directory).map (child directory) := by
  rw [filesIn, manifestNames, List.map_filterMap]
  refine List.filterMap_congr fun e _ => ?_
  obtain ⟨name, entry⟩ := e
  cases entry with
  | file content executable =>
    simp only [manifestName?]
    split <;> rfl
  | _ => rfl

section Listing

variable (h : w.Plain directory l)
include h

theorem mem_manifestNames : name ∈ manifestNames w directory ↔
    isManifestName (child directory name) = true ∧
      ∃ bytes executable, w.folder l name = some (.file bytes executable) := by
  have hMem : ∀ entry, (name, entry) ∈ w.list directory ↔ w.folder l name = some entry := by
    intro entry
    rw [(Workspace.list_of_leadsTo h.leads).mem_iff]
    exact ⟨OrderedMap.find?_of_mem h.distinct, OrderedMap.mem_of_find?⟩
  rw [manifestNames, List.mem_filterMap]
  constructor
  · rintro ⟨⟨found, entry⟩, hFound, hName⟩
    obtain ⟨rfl, hManifest, bytes, executable, rfl⟩ := manifestName?_eq_some.1 hName
    exact ⟨hManifest, bytes, executable, (hMem _).1 hFound⟩
  · rintro ⟨hManifest, bytes, executable, hFile⟩
    exact ⟨(name, .file bytes executable), (hMem _).2 hFile,
      manifestName?_eq_some.2 ⟨rfl, hManifest, bytes, executable, rfl⟩⟩

/-- The names of manifests are listed in order, each once. -/
theorem sorted_manifestNames : (manifestNames w directory).Pairwise (· < ·) := by
  have hPerm := Workspace.list_of_leadsTo h.leads
  have hSorted : (w.list directory).Pairwise fun a b => a.1 ≤ b.1 := by
    have hLeads := h.leads
    rw [Workspace.LeadsTo] at hLeads
    rw [Workspace.list, hLeads]
    let le := fun a b : String × Entry => decide (a.1 ≤ b.1)
    have hTrans : ∀ a b c, le a b = true → le b c = true → le a c = true := by
      intro a b c hab hbc
      exact decide_eq_true (le_trans (of_decide_eq_true hab) (of_decide_eq_true hbc))
    have hTotal : ∀ a b, (le a b || le b a) = true := by
      intro a b
      rw [Bool.or_eq_true]
      exact (le_total a.1 b.1).imp decide_eq_true decide_eq_true
    have hSort := List.pairwise_mergeSort hTrans hTotal (w.files.children l)
    exact hSort.imp fun hab => of_decide_eq_true hab
  have hDistinct : (w.list directory).Pairwise fun a b => a.1 ≠ b.1 :=
    List.pairwise_map.1 ((hPerm.map Prod.fst).nodup_iff.2 h.distinct)
  have hStrict : (w.list directory).Pairwise fun a b => a.1 < b.1 :=
    hSorted.imp₂ (fun a b hLe hNe => lt_of_le_of_ne hLe hNe) hDistinct
  refine List.Pairwise.filterMap _ (fun a b hab c hc d hd => ?_) hStrict
  rw [← (manifestName?_eq_some.1 hc).1, ← (manifestName?_eq_some.1 hd).1]
  exact hab

theorem nodup_manifestNames : (manifestNames w directory).Nodup :=
  (sorted_manifestNames h).imp fun hab => hab.ne

theorem isFile_of_mem_manifestNames (hName : name ∈ manifestNames w directory) :
    ∃ entry, w.folder l name = some entry ∧ entry.IsFile := by
  obtain ⟨-, bytes, executable, hFile⟩ := (mem_manifestNames h).1 hName
  exact ⟨_, hFile, bytes, executable, rfl⟩

theorem ne_none_of_mem_manifestNames : ∀ n ∈ manifestNames w directory, w.folder l n ≠ none := by
  intro n hn
  obtain ⟨entry, hEntry, -⟩ := isFile_of_mem_manifestNames h hn
  simp [hEntry]

theorem fits_manifestNames : ∀ n ∈ manifestNames w directory, Fits directory n := by
  intro n hn
  obtain ⟨entry, hEntry, -⟩ := isFile_of_mem_manifestNames h hn
  exact h.fits n entry hEntry

end Listing

/-! ### The first round -/

namespace Revision

/-- The path with which a problem of the first round is noted. -/
def problemPath (o : Revision) (directory name : String) : Problem → String
  | .unwritable _ => (o.daemonPath? (child directory name)).getD (child directory name)
  | _ => child directory name

/-- How many manifests have been revised and which problems there have been, after one more
manifest. -/
def counted (o : Revision) (directory : String) (f : Folder)
    (counts : Nat × List (String × Problem)) (name : String) : Nat × List (String × Problem) :=
  match o.stored f name with
  | .error problem => (counts.1, counts.2 ++ [(o.problemPath directory name problem, problem)])
  | .ok _ => (counts.1 + 1, counts.2)

/-- A step of a revision on a directory, from one state to another. -/
structure Steps (directory : String) (l : Location) (w w' : Workspace) (f : Folder) : Prop where
  plain : w'.Plain directory l
  folder : w'.folder l = f
  same : SameOutside l w w'

section First

variable (h : w.Plain directory l) (hFits : Fits directory name)
include h hFits

theorem daemonPath?_child :
    o.daemonPath? (child directory name) =
      (o.daemonName? name).map (withFileName (child directory name)) := by
  rw [daemonPath?, h.fileName?_child hFits.isName, Option.bind_some, daemonName?]
  cases Text.dropEnd? "-deployment.yaml".toList name.toList with
  | none => rfl
  | some stem =>
    simp only
    split <;> rfl

theorem readText_child :
    w.readText (child directory name) =
      match (w.folder l).read name with
      | .error e => .error e
      | .ok bytes =>
        match String.fromUTF8? bytes with
        | some text => .ok text
        | none => .error .notText := by
  have hPlace := (h.reaches hFits).place_eq (h.noLink name) true
  have hRead : w.read (child directory name) = (w.folder l).read name := by
    rw [Workspace.read, Workspace.entryAt, hPlace, Folder.read, Workspace.folder]
    cases hEntry : OrderedMap.find? (w.entries l) name with
    | none => rfl
    | some entry => cases entry <;> rfl
  rw [Workspace.readText, hRead]
  cases (w.folder l).read name with
  | error e => rfl
  | ok bytes =>
    cases hText : String.fromUTF8? bytes <;> simp only [hText]

/-- What is stored for a manifest is made of the text that is read under its path. -/
theorem stored_eq (o : Revision) :
    o.stored (w.folder l) name =
      match w.readText (child directory name) with
      | .error e => .error (.unreadable e)
      | .ok text =>
        match parseDocuments text with
        | .error e => .error (.notDocuments e)
        | .ok documents =>
          match writeDocuments (o.transformed name documents) with
          | .error e => .error (.notWritable e)
          | .ok new =>
            if (w.folder l).hasDirectory (o.destination name) then .error (.unwritable .isDirectory)
            else .ok new := by
  rw [readText_child h hFits, stored]
  cases (w.folder l).read name with
  | error e => rfl
  | ok bytes =>
    simp only [rewritten]
    cases String.fromUTF8? bytes with
    | none => rfl
    | some text =>
      simp only
      cases parseDocuments text with
      | error e => rfl
      | ok documents =>
        simp only
        cases writeDocuments (o.transformed name documents) <;> rfl

theorem reaches_destination : w.Reaches l (o.destination name)
    ((o.daemonPath? (child directory name)).getD (child directory name)) := by
  rw [daemonPath?_child h hFits, destination]
  cases hDaemon : o.daemonName? name with
  | none => exact h.reaches hFits
  | some target =>
    have hTarget : o.destination name = target := by rw [destination, hDaemon, Option.getD_some]
    have hName : IsName target := hTarget ▸ isName_destination hFits.isName
    have hSize : target.utf8ByteSize ≤ name.utf8ByteSize :=
      hTarget ▸ o.utf8ByteSize_destination name
    exact h.reaches_other hFits hName hSize

theorem fits_destination : Fits directory (o.destination name) :=
  h.fits_of_size hFits (isName_destination hFits.isName) (o.utf8ByteSize_destination name)

/-- Nothing is stored where a directory stands. -/
theorem store_of_hasDirectory (text : String) (r : RevisionReport)
    (hTaken : (w.folder l).hasDirectory (o.destination name) = true) :
    store (child directory name) (o.daemonPath? (child directory name)) text w r =
      (w, r.note (o.problemPath directory name (.unwritable .isDirectory))
        (.unwritable .isDirectory)) := by
  have hWrite := Workspace.write_of_reaches (h.noLink _) (reaches_destination (o := o) h hFits)
    text.toUTF8
  rw [hTaken, if_pos rfl] at hWrite
  rw [store, hWrite]
  rfl

/-- The documents of a file are stored at its destination, and nowhere else. -/
theorem store_of_file (text : String) (r : RevisionReport)
    (hFile : ∃ bytes executable, w.folder l name = some (.file bytes executable))
    (hFree : (w.folder l).hasDirectory (o.destination name) = false) :
    ∃ w' r', store (child directory name) (o.daemonPath? (child directory name)) text w r =
        (w', r') ∧
      Steps directory l w w' (Function.update (Function.update (w.folder l) name none)
        (o.destination name)
        (some (.file text.toUTF8 ((w.folder l).isExecutable (o.destination name))))) ∧
      r'.revised = r.revised + 1 ∧ r'.problems = r.problems := by
  have hNoDirectory : w.folder l (o.destination name) ≠ some .directory := by
    rw [ne_eq, ← Folder.hasDirectory_iff, hFree]
    exact Bool.false_ne_true
  have hWrite := Workspace.write_of_reaches (h.noLink _) (reaches_destination (o := o) h hFits)
    text.toUTF8
  rw [hFree, if_neg Bool.false_ne_true] at hWrite
  have hPut := h.put (fits_destination (o := o) h hFits) hNoDirectory text.toUTF8
    ((w.folder l).isExecutable (o.destination name))
  have hPutFolder := Workspace.folder_put w l (o.destination name)
    (.file text.toUTF8 ((w.folder l).isExecutable (o.destination name)))
  have hPutSame := Workspace.sameOutside_put w l (o.destination name)
    (.file text.toUTF8 ((w.folder l).isExecutable (o.destination name)))
  have hPath := daemonPath?_child (o := o) h hFits
  rcases o.destination_cases name with ⟨hNone, hSame⟩ | ⟨stem, hStem, -, hSome, hDaemon⟩
  · refine ⟨_, { r with revised := r.revised + 1 }, ?_, ⟨hPut, ?_, hPutSame⟩, rfl, rfl⟩
    · rw [store, hWrite, hPath, hNone]
      rfl
    · rw [hPutFolder, hSame, Function.update_idem]
  · have hNe : name ≠ o.destination name := by
      rw [hDaemon, hStem]
      exact deployment_ne_daemonSet stem stem
    obtain ⟨bytes, executable, hFile⟩ := hFile
    have hStill : (w.put (l ++ [o.destination name])
        (.file text.toUTF8 ((w.folder l).isExecutable (o.destination name)))).folder l name =
          some (.file bytes executable) := by
      rw [hPutFolder, Function.update_of_ne hNe, hFile]
    have hDelete := Workspace.delete_file (hPut.reaches hFits) hStill
    have hNotDirectory : (w.put (l ++ [o.destination name])
        (.file text.toUTF8 ((w.folder l).isExecutable (o.destination name)))).folder l name ≠
          some .directory := by
      rw [hStill]
      simp
    let target := withFileName (child directory name) (o.destination name)
    refine ⟨_, { r with revised := r.revised + 1, daemonSets := r.daemonSets ++ [target] }, ?_,
      ⟨hPut.remove hNotDirectory, ?_, hPutSame.trans (Workspace.sameOutside_remove _ l name)⟩,
      rfl, rfl⟩
    · rw [store, hWrite, hPath, hSome]
      simp only [Option.map_some, hDelete, target]
    · rw [Workspace.folder_remove, hPutFolder, Function.update_comm hNe]

/-- A step on the path of a name is the step under the name. -/
theorem reviseFile_eq (o : Revision) (r : RevisionReport) :
    ∃ w' r', o.reviseFile (w, r) (child directory name) = (w', r') ∧
      Steps directory l w w' (o.reviseIn (w.folder l) name) ∧
      (r'.revised, r'.problems) =
        o.counted directory (w.folder l) (r.revised, r.problems) name := by
  have hIs := stored_eq h hFits o
  -- a problem leaves everything as it was
  have hProblem : ∀ problem, o.stored (w.folder l) name = .error problem →
      Steps directory l w w (o.reviseIn (w.folder l) name) ∧
        (r.revised, r.problems ++ [(o.problemPath directory name problem, problem)]) =
          o.counted directory (w.folder l) (r.revised, r.problems) name := by
    intro problem hStored
    refine ⟨⟨h, (reviseIn_of_error hStored).symm, .refl l w⟩, ?_⟩
    rw [counted, hStored]
  rw [reviseFile]
  cases hText : w.readText (child directory name) with
  | error e =>
    simp only [hText] at hIs ⊢
    obtain ⟨hSteps, hCounted⟩ := hProblem _ hIs
    exact ⟨w, _, rfl, hSteps, hCounted⟩
  | ok text =>
    cases hParse : parseDocuments text with
    | error e =>
      simp only [hText, hParse] at hIs ⊢
      obtain ⟨hSteps, hCounted⟩ := hProblem _ hIs
      exact ⟨w, _, rfl, hSteps, hCounted⟩
    | ok documents =>
      have hTransformed : (if (o.daemonPath? (child directory name)).isSome then
          (documents.map o.revised).map Revise.toDaemonSet else documents.map o.revised) =
            o.transformed name documents := by
        rw [daemonPath?_child h hFits, Option.isSome_map, transformed]
      cases hWrite : writeDocuments (o.transformed name documents) with
      | error e =>
        simp only [hText, hParse, hTransformed, hWrite] at hIs ⊢
        obtain ⟨hSteps, hCounted⟩ := hProblem _ hIs
        exact ⟨w, _, rfl, hSteps, hCounted⟩
      | ok new =>
        simp only [hText, hParse, hTransformed, hWrite] at hIs ⊢
        cases hDirectory : (w.folder l).hasDirectory (o.destination name) with
        | true =>
          rw [hDirectory, if_pos rfl] at hIs
          obtain ⟨hSteps, hCounted⟩ := hProblem _ hIs
          rw [store_of_hasDirectory h hFits _ _ hDirectory]
          exact ⟨w, _, rfl, hSteps, hCounted⟩
        | false =>
          rw [hDirectory, if_neg Bool.false_ne_true] at hIs
          obtain ⟨⟨old, executable, hOld, -⟩, -⟩ := of_stored_eq_ok hIs
          obtain ⟨w', r', hStore, hSteps, hRevised, hProblems⟩ := store_of_file h hFits new
            { r with moved := r.moved + (documents.map o.movedIn).foldl (· + ·) 0 }
            ⟨old, executable, hOld⟩ hDirectory
          refine ⟨w', r', hStore, ?_, ?_⟩
          · rwa [reviseIn_of_ok hIs]
          · rw [counted, hIs, hRevised, hProblems]

end First

/-- The counts of a round are known from the folder at its start. -/
theorem foldl_counted_reviseIn {m : String} {names : List String} (h : ∀ n ∈ names, m < n)
    (f : Folder) (counts : Nat × List (String × Problem)) :
    names.foldl (o.counted directory (o.reviseIn f m)) counts =
      names.foldl (o.counted directory f) counts := by
  refine List.foldl_ext _ _ _ fun counts n hn => ?_
  rw [counted, counted, stored_reviseIn (h n hn)]

/-- The first round on the paths of names is the round under the names. -/
theorem foldl_reviseFile {names : List String} (h : w.Plain directory l)
    (hFits : ∀ n ∈ names, Fits directory n) (hSorted : names.Pairwise (· < ·)) (o : Revision)
    (r : RevisionReport) :
    ∃ w' r', (names.map (child directory)).foldl o.reviseFile (w, r) = (w', r') ∧
      Steps directory l w w' (names.foldl o.reviseIn (w.folder l)) ∧
      (r'.revised, r'.problems) =
        names.foldl (o.counted directory (w.folder l)) (r.revised, r.problems) := by
  induction names generalizing w r with
  | nil => exact ⟨w, r, rfl, ⟨h, rfl, .refl l w⟩, rfl⟩
  | cons n names ih =>
    obtain ⟨hHead, hRest⟩ := List.forall_mem_cons.1 hFits
    obtain ⟨hLess, hOrder⟩ := List.pairwise_cons.1 hSorted
    obtain ⟨v, s, hStep, hSteps, hCounted⟩ := reviseFile_eq h hHead o r
    obtain ⟨w', r', hFold, hAll, hCounts⟩ := ih hSteps.plain hRest hOrder s
    rw [hSteps.folder] at hAll hCounts
    refine ⟨w', r', ?_, ⟨hAll.plain, hAll.folder, hSteps.same.trans hAll.same⟩, ?_⟩
    · rw [List.map_cons, List.foldl_cons, hStep, hFold]
    · rw [hCounts, hCounted, foldl_counted_reviseIn hLess, List.foldl_cons]

/-! ### The second round -/

/-- The problems that there have been after one more file has got its name. -/
def noted (directory : String) (f : Folder) (problems : List (String × Problem)) (name : String) :
    List (String × Problem) :=
  if name.toList.contains '_' && (f (Revise.dashed name)).isSome then
    problems ++ [(child directory name,
      .nameTaken (withFileName (child directory name) (Revise.dashed name)))]
  else problems

/-- A text without dashes is not made by putting dashes. -/
theorem eq_of_dashed_eq {s : String} (h : Revise.dashed name = s) (hDash : '-' ∉ s.toList) :
    name = s := by
  have hNone : '_' ∉ name.toList := by
    intro hMem
    refine hDash ?_
    rw [← h, Revise.dashed, String.toList_map]
    exact List.mem_map.2 ⟨'_', hMem, rfl⟩
  rw [← h, Revise.dashed_eq_self hNone]

theorem utf8ByteSize_dashed (name : String) :
    (Revise.dashed name).utf8ByteSize = name.utf8ByteSize := by
  have hSize : ∀ cs : List Char,
      (String.ofList (cs.map fun c => if c = '_' then '-' else c)).utf8ByteSize =
        (String.ofList cs).utf8ByteSize := by
    intro cs
    induction cs with
    | nil => rfl
    | cons c r ih =>
      have hChar : (if c = '_' then '-' else c).utf8Size = c.utf8Size := by
        split
        · rename_i hc
          rw [hc]
          rfl
        · rfl
      rw [List.map_cons, String.ofList_cons, String.ofList_cons, String.utf8ByteSize_append,
        String.utf8ByteSize_append, String.utf8ByteSize_singleton, String.utf8ByteSize_singleton,
        hChar, ih]
  rw [← String.ofList_toList (s := Revise.dashed name), Revise.dashed, String.toList_map, hSize,
    String.ofList_toList]

/-- With dashes, a name can still be given. -/
theorem isName_dashed (h : IsName name) : IsName (Revise.dashed name) := by
  have hChar : ∀ c, c ≠ '-' → c ∈ (Revise.dashed name).toList → c ∈ name.toList := by
    intro c hDash hc
    rw [Revise.dashed, String.toList_map] at hc
    obtain ⟨d, hd, hEq⟩ := List.mem_map.1 hc
    split at hEq
    · exact absurd hEq.symm hDash
    · rwa [← hEq]
  have hIdle : Path.isIdle (Revise.dashed name) = false := by
    rw [Bool.eq_false_iff]
    intro hIdle
    have hOr : Revise.dashed name = "" ∨ Revise.dashed name = "." := by
      simpa [Path.isIdle] using hIdle
    have hSame : Revise.dashed name = name := by
      rcases hOr with hEq | hEq
      · rw [hEq, eq_of_dashed_eq hEq (by decide)]
      · rw [hEq, eq_of_dashed_eq hEq (by decide)]
    rw [hSame, h.notIdle] at hIdle
    exact Bool.false_ne_true hIdle
  refine ⟨fun hMem => h.noSlash (hChar _ (by decide) hMem),
    fun hMem => h.noNul (hChar _ (by decide) hMem), hIdle, fun hUp => ?_, ?_⟩
  · exact h.notUp (eq_of_dashed_eq hUp (by decide))
  · rw [utf8ByteSize_dashed]
    exact h.short

section Second

variable (h : w.Plain directory l) (hFits : Fits directory name)
include h hFits

theorem fits_dashed : Fits directory (Revise.dashed name) :=
  h.fits_of_size hFits (isName_dashed hFits.isName) (Nat.le_of_eq (utf8ByteSize_dashed name))

/-- A file that is moved to a free name is found there with what it held. -/
theorem move_eq {other path : String} {entry : Entry} (hOther : Fits directory other)
    (hPath : w.Reaches l other path) (hEntry : w.folder l name = some entry)
    (hFile : entry.IsFile) (hFree : w.folder l other = none) :
    ∃ w', w.move (child directory name) path = .ok w' ∧
      Steps directory l w w'
        (Function.update (Function.update (w.folder l) name none) other (some entry)) := by
  obtain ⟨bytes, executable, rfl⟩ := hFile
  have hSource := (h.reaches hFits).place_eq (h.noLink name) false
  have hTarget := hPath.place_eq (h.noLink other) false
  have hSourceEntry : OrderedMap.find? (w.entries l) name = some (.file bytes executable) := hEntry
  have hTargetEntry : OrderedMap.find? (w.entries l) other = none := hFree
  rw [hSourceEntry] at hSource
  rw [hTargetEntry] at hTarget
  have hNotDirectory : w.folder l name ≠ some .directory := by simp [hEntry]
  have hRemove := h.remove hNotDirectory
  have hFolder := Workspace.folder_remove w l name
  have hNoDirectory : ({ w with files := w.files.remove (l ++ [name]) } : Workspace).folder l other
      ≠ some .directory := by
    rw [hFolder, Function.update_apply, hFree]
    split <;> simp
  refine ⟨_, by rw [Workspace.move, hSource, hTarget]; rfl,
    hRemove.put hOther hNoDirectory bytes executable, ?_,
    (Workspace.sameOutside_remove w l name).trans (Workspace.sameOutside_put _ l other _)⟩
  rw [← hFolder]
  exact Workspace.folder_put _ l other _

/-- A step on the path of a file is the step under its name. -/
theorem renameFile_eq {entry : Entry} (hEntry : w.folder l name = some entry)
    (hFile : entry.IsFile) (r : RevisionReport) :
    ∃ w' r', renameFile (w, r) (child directory name) = (w', r') ∧
      Steps directory l w w' (renameIn (w.folder l) name) ∧ r'.revised = r.revised ∧
      r'.problems = noted directory (w.folder l) r.problems name := by
  have hOther := fits_dashed h hFits
  have hReaches := h.reaches_other hFits hOther.isName (Nat.le_of_eq (utf8ByteSize_dashed name))
  have hExists := Workspace.exists?_of_reaches (h.noLink _) hReaches
  have hKept : newName (w.folder l) name = name →
      Steps directory l w w (renameIn (w.folder l) name) := fun hSame =>
    ⟨h, (renameIn_of_newName_eq_self hSame).symm, .refl l w⟩
  rw [renameFile]
  simp only [h.fileName?_child hFits.isName, hExists]
  cases hUnderscore : name.toList.contains '_' with
  | false =>
    refine ⟨w, r, rfl, hKept ?_, rfl, ?_⟩
    · rw [newName, hUnderscore]
      rfl
    · rw [noted, hUnderscore]
      rfl
  | true =>
    cases hTaken : w.folder l (Revise.dashed name) with
    | some other =>
      refine ⟨w, r.note (child directory name)
        (.nameTaken (withFileName (child directory name) (Revise.dashed name))), rfl, hKept ?_,
        rfl, ?_⟩
      · rw [newName, hTaken, hUnderscore]
        rfl
      · rw [noted, hTaken, hUnderscore]
        rfl
    | none =>
      obtain ⟨w', hMove, hSteps⟩ := move_eq h hFits hOther hReaches hEntry hFile hTaken
      have hNew : newName (w.folder l) name = Revise.dashed name := by
        rw [newName, hTaken, hUnderscore]
        rfl
      refine ⟨w', { r with renamed := r.renamed ++
        [(child directory name, withFileName (child directory name) (Revise.dashed name))] }, ?_,
        ?_, rfl, ?_⟩
      · simp only [hMove]
        rfl
      · rwa [renameIn, hNew, hEntry]
      · rw [noted, hTaken, hUnderscore]
        rfl

end Second

/-- The problems of a round are known from the folder at each moment. -/
def notedAll (directory : String) :
    Folder → List (String × Problem) → List String → List (String × Problem)
  | _, problems, [] => problems
  | f, problems, name :: names =>
    notedAll directory (renameIn f name) (noted directory f problems name) names

/-- The second round on the paths of files is the round under their names. -/
theorem foldl_renameFile {names : List String} (h : w.Plain directory l)
    (hDistinct : names.Nodup)
    (hFiles : ∀ n ∈ names, ∃ entry, w.folder l n = some entry ∧ entry.IsFile)
    (r : RevisionReport) :
    ∃ w' r', (names.map (child directory)).foldl renameFile (w, r) = (w', r') ∧
      Steps directory l w w' (names.foldl renameIn (w.folder l)) ∧ r'.revised = r.revised ∧
      r'.problems = notedAll directory (w.folder l) r.problems names := by
  induction names generalizing w r with
  | nil => exact ⟨w, r, rfl, ⟨h, rfl, .refl l w⟩, rfl, rfl⟩
  | cons n names ih =>
    obtain ⟨⟨entry, hEntry, hFile⟩, hRest⟩ := List.forall_mem_cons.1 hFiles
    obtain ⟨hNew, hOthers⟩ := List.nodup_cons.1 hDistinct
    obtain ⟨v, s, hStep, hSteps, hRevised, hProblems⟩ :=
      renameFile_eq h (h.fits n entry hEntry) hEntry hFile r
    have hStill : ∀ m ∈ names, ∃ entry, v.folder l m = some entry ∧ entry.IsFile := by
      intro m hm
      obtain ⟨other, hOther, hOtherFile⟩ := hRest m hm
      refine ⟨other, ?_, hOtherFile⟩
      rw [hSteps.folder, renameIn_of_ne (by simp [hOther]), hOther]
      rintro rfl
      exact absurd hm hNew
    obtain ⟨w', r', hFold, hAll, hCount, hNoted⟩ := ih hSteps.plain hOthers hStill s
    rw [hSteps.folder] at hAll hNoted
    refine ⟨w', r', ?_, ⟨hAll.plain, hAll.folder, hSteps.same.trans hAll.same⟩, ?_, ?_⟩
    · rw [List.map_cons, List.foldl_cons, hStep, hFold]
    · rw [hCount, hRevised]
    · rw [hNoted, hProblems, notedAll]

/-! ### Both rounds -/

/-- The workspace between the two rounds of a revision. -/
def between (o : Revision) (directory : String) (w : Workspace) : Workspace :=
  ((filesIn w directory).foldl o.reviseFile (w, .empty)).1

/-- The counts after the first round. -/
def countedAll (o : Revision) (directory : String) (f : Folder) (names : List String) :
    Nat × List (String × Problem) :=
  names.foldl (o.counted directory f) (0, [])

section Run

variable (h : w.Plain directory l) (o : Revision)
include h

theorem steps_between :
    Steps directory l w (o.between directory w)
      ((manifestNames w directory).foldl o.reviseIn (w.folder l)) := by
  obtain ⟨w₁, r₁, hRound, hSteps, -⟩ :=
    foldl_reviseFile h (fits_manifestNames h) (sorted_manifestNames h) o .empty
  rw [between, filesIn_eq, hRound]
  exact hSteps

/-- A revision of a plain directory is two rounds in its folder. -/
theorem run_eq :
    ∃ w₂ r, o.run directory w = (w₂, r) ∧
      Steps directory l (o.between directory w) w₂
        ((manifestNames (o.between directory w) directory).foldl renameIn
          ((o.between directory w).folder l)) ∧
      r.revised = (o.countedAll directory (w.folder l) (manifestNames w directory)).1 ∧
      r.problems = notedAll directory ((o.between directory w).folder l)
        (o.countedAll directory (w.folder l) (manifestNames w directory)).2
        (manifestNames (o.between directory w) directory) := by
  obtain ⟨w₁, r₁, hRound, hSteps, hCounts⟩ :=
    foldl_reviseFile h (fits_manifestNames h) (sorted_manifestNames h) o .empty
  have hBetween : o.between directory w = w₁ := by rw [between, filesIn_eq, hRound]
  have hPlain := hSteps.plain
  obtain ⟨w₂, r, hSecond, hAll, hRevised, hProblems⟩ :=
    foldl_renameFile hPlain (nodup_manifestNames hPlain)
      (fun _ => isFile_of_mem_manifestNames hPlain) r₁
  have hFirst : r₁.revised = (o.countedAll directory (w.folder l) (manifestNames w directory)).1 ∧
      r₁.problems = (o.countedAll directory (w.folder l) (manifestNames w directory)).2 :=
    Prod.mk.inj hCounts
  refine ⟨w₂, r, ?_, ?_, ?_, ?_⟩
  · rw [run, filesIn_eq w, hRound]
    simp only
    rw [filesIn_eq, hSecond]
  · rwa [hBetween]
  · rw [hRevised, hFirst.1]
  · rw [hBetween, hProblems, hFirst.2]

end Run

end Revision

end Manifest

end KubeCompose
