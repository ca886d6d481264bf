import KubeCompose.Proofs.Legible
import KubeCompose.Proofs.Revision
import KubeCompose.Proofs.Rounds

/-!
# A revision loses nothing

What a revision leaves of a plain directory: all that is no manifest, and of each manifest one file,
under a name that is known from its old one, with its revised documents or with its old bytes. The
only manifests that may be lost are those that are taken for daemon sets of deployments beside them.
-/

namespace KubeCompose

open KubeCompose.Path (IsName child withFileName)
open Workspace (Plain Fits SameOutside)

namespace Manifest

variable {w : Workspace} {directory name k m n : String} {l : Location} {o : Revision}

/-! ### Names of manifests -/

/-- A name is that of a manifest when it ends in one of two ways, behind something else. -/
theorem isManifestName_child (hDirectory : directory ≠ "") (hName : IsName name) :
    isManifestName (child directory name) = true ↔
      ∃ stem ext, stem ≠ [] ∧ (ext = "yaml".toList ∨ ext = "yml".toList) ∧
        name.toList = stem ++ '.' :: ext := by
  obtain ⟨first, middle, hBase⟩ :=
    List.exists_cons_of_ne_nil (Path.pieces_ne_nil (Path.base directory))
  have hFileName := Path.fileName?_child hDirectory hName hBase
  rw [isManifestName, Path.extension?, hFileName, Option.bind_some]
  constructor
  · intro h
    cases hCut : Text.cutAtLast? '.' name.toList with
    | none => simp [hCut] at h
    | some parts =>
      obtain ⟨stem, ext⟩ := parts
      obtain ⟨hParts, -⟩ := Text.eq_append_of_cutAtLast? hCut
      cases stem with
      | nil => simp [hCut] at h
      | cons c stem =>
        simp only [hCut, Bool.or_eq_true, beq_iff_eq, Option.some.injEq] at h
        refine ⟨c :: stem, ext, by simp, h.imp ?_ ?_, hParts⟩
        · intro hExt
          rw [← hExt, String.toList_ofList]
        · intro hExt
          rw [← hExt, String.toList_ofList]
  · rintro ⟨stem, ext, hStem, hExt, hParts⟩
    have hDot : '.' ∉ ext := by
      rcases hExt with rfl | rfl
      · decide
      · decide
    have hCut : Text.cutAtLast? '.' name.toList = some (stem, ext) := by
      rw [hParts, Text.cutAtLast?_append stem hDot]
    cases stem with
    | nil => exact absurd rfl hStem
    | cons c stem =>
      simp only [hCut, Bool.or_eq_true, beq_iff_eq, Option.some.injEq]
      refine hExt.imp ?_ ?_
      · rintro rfl
        exact String.ofList_toList
      · rintro rfl
        exact String.ofList_toList

/-- The daemon set that takes the place of a manifest is one, too. -/
theorem isManifestName_destination (hDirectory : directory ≠ "") (hName : IsName name)
    (h : isManifestName (child directory name) = true) :
    isManifestName (child directory (o.destination name)) = true := by
  rcases o.destination_cases name with ⟨-, hSame⟩ | ⟨stem, -, -, -, hDaemon⟩
  · rwa [hSame]
  · refine (isManifestName_child hDirectory (Revision.isName_destination hName)).2
      ⟨stem.toList ++ "-daemonset".toList, "yaml".toList, by simp, .inl rfl, ?_⟩
    rw [hDaemon]
    simp

/-- With dashes, the name of a manifest is one, too. -/
theorem isManifestName_dashed (hDirectory : directory ≠ "") (hName : IsName name)
    (h : isManifestName (child directory name) = true) :
    isManifestName (child directory (Revise.dashed name)) = true := by
  obtain ⟨stem, ext, hStem, hExt, hParts⟩ := (isManifestName_child hDirectory hName).1 h
  refine (isManifestName_child hDirectory (Revision.isName_dashed hName)).2
    ⟨stem.map fun c => if c = '_' then '-' else c, ext, by simpa using hStem, hExt, ?_⟩
  rw [Revise.dashed, String.toList_map, hParts, List.map_append, List.map_cons]
  congr 2
  rcases hExt with rfl | rfl <;> decide

namespace Revision

/-! ### Names after the first round -/

/-- The name of a manifest after the first round: that of its daemon set when this was stored. -/
def middleName (o : Revision) (f : Folder) (name : String) : String :=
  match o.stored f name with
  | .ok _ => o.destination name
  | .error _ => name

theorem middleName_of_ok {f : Folder} {text : String} (h : o.stored f name = .ok text) :
    o.middleName f name = o.destination name := by rw [middleName, h]

theorem middleName_of_error {f : Folder} {problem : Problem}
    (h : o.stored f name = .error problem) : o.middleName f name = name := by rw [middleName, h]

/-- What is stored for a manifest of one document is the text of what the revision makes of it. -/
theorem stored_of_document {f : Folder} {text : String} {bytes : ByteArray} {executable : Bool}
    {d d' : Yaml}
    (hFile : f k = some (.file bytes executable)) (hText : String.fromUTF8? bytes = some text)
    (hParse : parseDocuments text = .ok [d]) (hTransformed : o.transformed k [d] = [d'])
    (hWritable : Yaml.isWritable false d' = true) (hFree : f (o.destination k) ≠ some .directory) :
    o.stored f k = .ok d'.render := by
  have hNone : f.hasDirectory (o.destination k) = false := by
    rw [Bool.eq_false_iff, ne_eq, Folder.hasDirectory_iff]
    exact hFree
  rw [stored, Folder.read, hFile]
  simp only [rewritten, hText, hParse, hTransformed, writeDocuments_singleton hWritable, hNone,
    Bool.false_eq_true, if_false]

/-- Of a deployment that is stored as a daemon set no other one takes the place. -/
theorem not_overwritten_of_destination_ne {f : Folder} {names : List String}
    (h : o.destination n ≠ n) : ¬ o.Overwritten f names n := by
  rintro ⟨m, -, -, hm, -⟩
  rw [← hm, destination_destination] at h
  exact h rfl

/-- Manifests that are not overwritten have different middle names. -/
theorem middleName_inj {f : Folder} {names : List String} (hm : m ∈ names) (hn : n ∈ names)
    (hmKept : ¬ o.Overwritten f names m) (hnKept : ¬ o.Overwritten f names n)
    (hSame : o.middleName f m = o.middleName f n) : m = n := by
  by_contra hNe
  cases hStored : o.stored f m with
  | error problem =>
    rw [middleName_of_error hStored] at hSame
    cases hOther : o.stored f n with
    | error problem' =>
      rw [middleName_of_error hOther] at hSame
      exact hNe hSame
    | ok text =>
      rw [middleName_of_ok hOther] at hSame
      exact hmKept ⟨n, hn, Ne.symm hNe, hSame.symm, text, hOther⟩
  | ok text =>
    rw [middleName_of_ok hStored] at hSame
    cases hOther : o.stored f n with
    | error problem =>
      rw [middleName_of_error hOther] at hSame
      exact hnKept ⟨m, hm, hNe, hSame, text, hStored⟩
    | ok text' =>
      rw [middleName_of_ok hOther] at hSame
      by_cases hmPlace : o.destination m = m
      · exact hmKept ⟨n, hn, Ne.symm hNe, by rw [← hSame, hmPlace], text', hOther⟩
      · by_cases hnPlace : o.destination n = n
        · exact hnKept ⟨m, hm, hNe, by rw [hSame, hnPlace], text, hStored⟩
        · exact hNe (destination_inj hSame hmPlace hnPlace)

section First

variable (h : w.Plain directory l) (o : Revision)
include h

/-- What stands in a directory is a manifest, or no manifest. -/
theorem mem_manifestNames_iff {entry : Entry} (hEntry : w.folder l k = some entry) :
    k ∈ manifestNames w directory ↔ ¬ IsNoManifest directory (k, entry) := by
  rw [mem_manifestNames h, IsNoManifest, not_or, not_forall, hEntry]
  constructor
  · rintro ⟨hManifest, bytes, executable, hFile⟩
    rw [Option.some.injEq] at hFile
    exact ⟨by simp [hManifest], bytes, fun hNo => hNo executable hFile⟩
  · rintro ⟨hManifest, bytes, hFile⟩
    rw [not_forall] at hFile
    obtain ⟨executable, hFile⟩ := hFile
    rw [not_not] at hFile
    exact ⟨by simpa using hManifest, bytes, executable, congrArg some hFile⟩

/-- After the first round a manifest is under its middle name, unless it is overwritten. -/
theorem exists_file_middleName (hn : n ∈ manifestNames w directory)
    (hKept : ¬ o.Overwritten (w.folder l) (manifestNames w directory) n) :
    ∃ bytes executable, (o.between directory w).folder l (o.middleName (w.folder l) n) =
        some (.file bytes executable) ∧
      (∀ problem, o.stored (w.folder l) n = .error problem →
        w.folder l n = some (.file bytes executable)) ∧
      ∀ text, o.stored (w.folder l) n = .ok text → bytes = text.toUTF8 := by
  rw [(steps_between h o).folder]
  have hSorted := sorted_manifestNames h
  cases hStored : o.stored (w.folder l) n with
  | ok text =>
    obtain ⟨executable, hFile⟩ := foldl_reviseIn_destination hSorted hn hStored hKept
    rw [middleName_of_ok hStored]
    exact ⟨text.toUTF8, executable, hFile, by simp, by simp⟩
  | error problem =>
    obtain ⟨-, bytes, executable, hFile⟩ := (mem_manifestNames h).1 hn
    rw [middleName_of_error hStored, foldl_reviseIn_of_error hSorted hn hStored hKept]
    exact ⟨bytes, executable, hFile, fun _ _ => hFile, by simp⟩

/-- What is no manifest is not touched by the first round. -/
theorem folder_between_of_isNoManifest {entry : Entry} (hEntry : w.folder l k = some entry)
    (hNo : IsNoManifest directory (k, entry)) :
    (o.between directory w).folder l k = some entry := by
  rw [(steps_between h o).folder, foldl_reviseIn_of_ne (sorted_manifestNames h), hEntry]
  intro n hn text hStored
  obtain ⟨hManifest, bytes, executable, hFile⟩ := (mem_manifestNames h).1 hn
  obtain ⟨-, hFree⟩ := of_stored_eq_ok hStored
  have hName := (h.fits n _ hFile).isName
  constructor
  · rintro rfl
    rcases hNo with hOther | hNoFile
    · simp [hManifest] at hOther
    · rw [hFile, Option.some.injEq] at hEntry
      exact hNoFile _ _ hEntry.symm
  · rintro rfl
    rcases hNo with hOther | hNoFile
    · rw [isManifestName_destination h.nonempty hName hManifest] at hOther
      exact absurd hOther (by simp)
    · cases entry with
      | directory =>
        rw [Folder.hasDirectory_iff.2 hEntry] at hFree
        exact absurd hFree (by simp)
      | link target => exact h.noLink _ _ hEntry
      | file bytes executable => exact hNoFile bytes executable rfl

/-- What stands in the directory after the first round is no manifest and was there before, or it is
a manifest under its middle name. -/
theorem of_folder_between {entry : Entry}
    (hEntry : (o.between directory w).folder l k = some entry) :
    (IsNoManifest directory (k, entry) ∧ w.folder l k = some entry) ∨
      ∃ n ∈ manifestNames w directory,
        ¬ o.Overwritten (w.folder l) (manifestNames w directory) n ∧
          o.middleName (w.folder l) n = k := by
  have hSorted := sorted_manifestNames h
  rw [(steps_between h o).folder] at hEntry
  by_cases hStored : ∃ m ∈ manifestNames w directory, o.destination m = k ∧
      ∃ text, o.stored (w.folder l) m = .ok text
  · right
    obtain ⟨m, hm, hDestination, text, hText⟩ := hStored
    by_cases hOver : o.Overwritten (w.folder l) (manifestNames w directory) m
    · -- the daemon set of a deployment has taken the place
      obtain ⟨j, hj, hNe, hPlace, other, hOther⟩ := hOver
      have hSame : o.destination m = m := by rw [← hPlace, destination_destination]
      refine ⟨j, hj, not_overwritten_of_destination_ne (by rwa [hPlace, ne_comm]), ?_⟩
      rw [middleName_of_ok hOther, hPlace, ← hDestination, hSame]
    · exact ⟨m, hm, hOver, by rw [middleName_of_ok hText, hDestination]⟩
  · by_cases hk : k ∈ manifestNames w directory
    · right
      cases hOwn : o.stored (w.folder l) k with
      | ok text =>
        have hMoved : o.destination k ≠ k := fun hSame => hStored ⟨k, hk, hSame, text, hOwn⟩
        rw [foldl_reviseIn_of_daemonName hSorted hk hOwn hMoved] at hEntry
        simp at hEntry
      | error problem =>
        refine ⟨k, hk, ?_, middleName_of_error hOwn⟩
        rintro ⟨m, hm, -, hPlace, text, hText⟩
        exact hStored ⟨m, hm, hPlace, text, hText⟩
    · left
      rw [foldl_reviseIn_of_ne hSorted] at hEntry
      · refine ⟨?_, hEntry⟩
        by_contra hNo
        exact hk ((mem_manifestNames_iff h hEntry).2 hNo)
      · intro n hn text hText
        refine ⟨?_, fun hPlace => hStored ⟨n, hn, hPlace.symm, text, hText⟩⟩
        rintro rfl
        exact hk hn

end First

/-! ### Counts and problems -/

/-- Each manifest is counted once when it is stored, and noted with its problem otherwise. -/
theorem countedAll_eq (o : Revision) (directory : String) (f : Folder) (names : List String) :
    o.countedAll directory f names =
      ((names.filter fun n => (o.stored f n).isOk).length,
        names.filterMap fun n =>
          match o.stored f n with
          | .error problem => some (o.problemPath directory n problem, problem)
          | .ok _ => none) := by
  suffices hFrom : ∀ counts : Nat × List (String × Problem),
      names.foldl (o.counted directory f) counts =
        (counts.1 + (names.filter fun n => (o.stored f n).isOk).length,
          counts.2 ++ names.filterMap fun n =>
            match o.stored f n with
            | .error problem => some (o.problemPath directory n problem, problem)
            | .ok _ => none) by
    rw [countedAll, hFrom, Nat.zero_add, List.nil_append]
  induction names with
  | nil => simp
  | cons n names ih =>
    intro counts
    rw [List.foldl_cons, ih, counted]
    cases hStored : o.stored f n with
    | error problem =>
      simp [hStored, Except.isOk, Except.toBool]
    | ok text =>
      simp only [List.filter_cons, List.filterMap_cons, hStored, Except.isOk, Except.toBool,
        if_true, List.length_cons, Prod.mk.injEq, and_true]
      omega

/-- Problems that were noted stay noted. -/
theorem subset_notedAll (directory : String) (f : Folder) (problems : List (String × Problem))
    (names : List String) : problems ⊆ notedAll directory f problems names := by
  induction names generalizing f problems with
  | nil => exact List.Subset.refl _
  | cons n names ih =>
    have hHere : problems ⊆ noted directory f problems n := by
      rw [noted]
      split
      · exact List.subset_append_left _ _
      · exact List.Subset.refl _
    exact List.Subset.trans hHere (ih _ _)

/-- A file that keeps a name with underscores is noted. -/
theorem mem_notedAll {f : Folder} {names : List String} {problems : List (String × Problem)}
    (hn : n ∈ names) (hName : '_' ∈ n.toList) (hSame : finalName f names n = n) :
    (child directory n, .nameTaken (withFileName (child directory n) (Revise.dashed n))) ∈
      notedAll directory f problems names := by
  obtain ⟨before, after, rfl, hBefore⟩ := List.eq_append_cons_of_mem hn
  rw [finalName_eq hBefore] at hSame
  have hTaken := taken_of_newName_eq_self hSame hName
  have hAppend : ∀ (before : List String) (f : Folder) (problems : List (String × Problem)),
      notedAll directory f problems (before ++ n :: after) =
        notedAll directory (before.foldl renameIn f) (notedAll directory f problems before)
          (n :: after) := by
    intro before
    induction before with
    | nil => exact fun _ _ => rfl
    | cons b before ih => exact fun f problems => ih _ _
  rw [hAppend, notedAll]
  refine subset_notedAll _ _ _ _ ?_
  rw [noted, if_pos]
  · exact List.mem_append_right _ (List.mem_singleton_self _)
  · rw [Bool.and_eq_true, List.contains_iff_mem, Option.isSome_iff_ne_none]
    exact ⟨hName, hTaken⟩

/-! ### What is left -/

/-- The name under which a manifest ends up: its middle name, with dashes for underscores unless
that name is taken when its turn comes. -/
def lastName (o : Revision) (directory : String) (l : Location) (w : Workspace) (name : String) :
    String :=
  finalName ((o.between directory w).folder l) (manifestNames (o.between directory w) directory)
    (o.middleName (w.folder l) name)

theorem lastName_cases (o : Revision) (directory : String) (l : Location) (w : Workspace)
    (n : String) :
    o.lastName directory l w n = o.middleName (w.folder l) n ∨
      o.lastName directory l w n = Revise.dashed (o.middleName (w.folder l) n) := by
  rcases newName_cases _ (o.middleName (w.folder l) n) with hSame | ⟨-, -, hNew⟩
  · exact .inl hSame
  · exact .inr hNew

/-- A manifest ends up under its own name or that of its daemon set, with dashes or without. -/
theorem lastName_mem (o : Revision) (directory : String) (l : Location) (w : Workspace)
    (n : String) :
    o.lastName directory l w n ∈
      [n, o.destination n, Revise.dashed n, Revise.dashed (o.destination n)] := by
  have hMiddle : o.middleName (w.folder l) n = n ∨
      o.middleName (w.folder l) n = o.destination n := by
    cases hStored : o.stored (w.folder l) n with
    | ok text => exact .inr (middleName_of_ok hStored)
    | error problem => exact .inl (middleName_of_error hStored)
  rcases o.lastName_cases directory l w n with hLast | hLast
  · rw [hLast]
    rcases hMiddle with hSame | hSame <;> simp [hSame]
  · rw [hLast]
    rcases hMiddle with hSame | hSame <;> simp [hSame]

/-- A manifest that keeps its underscores had its middle name before. -/
theorem lastName_of_underscore (hName : '_' ∈ (o.lastName directory l w n).toList) :
    o.lastName directory l w n = o.middleName (w.folder l) n := by
  refine (o.lastName_cases directory l w n).resolve_right fun hLast => ?_
  rw [hLast] at hName
  exact Revise.underscore_notMem_dashed _ hName

/-- A revision of a directory that has lost nothing but what was overwritten. -/
structure Lossless (o : Revision) (directory : String) (l : Location) (w w' : Workspace)
    (r : RevisionReport) : Prop where
  /-- Nothing outside the directory changes. -/
  outside : SameOutside l w w'
  /-- Neither does what is no manifest. -/
  others : ∀ k entry, IsNoManifest directory (k, entry) →
    (w'.folder l k = some entry ↔ w.folder l k = some entry)
  /-- A manifest that cannot be read keeps its bytes. -/
  unread : ∀ n ∈ manifestNames w directory,
    ¬ o.Overwritten (w.folder l) (manifestNames w directory) n →
      ∀ e, w.readText (child directory n) = .error e →
        w'.folder l (o.lastName directory l w n) = w.folder l n
  /-- So does one that is no list of documents. -/
  unparsed : ∀ n ∈ manifestNames w directory,
    ¬ o.Overwritten (w.folder l) (manifestNames w directory) n →
      ∀ text e, w.readText (child directory n) = .ok text → parseDocuments text = .error e →
        w'.folder l (o.lastName directory l w n) = w.folder l n
  /-- So does one whose revised documents have no text, or whose place is a directory's. -/
  unwritten : ∀ n ∈ manifestNames w directory,
    ¬ o.Overwritten (w.folder l) (manifestNames w directory) n →
      ∀ text documents, w.readText (child directory n) = .ok text →
        parseDocuments text = .ok documents →
          (∃ e, writeDocuments (o.transformed n documents) = .error e) ∨
              w.folder l (o.destination n) = some .directory →
            w'.folder l (o.lastName directory l w n) = w.folder l n
  /-- Any other one is a file with the text of its revised documents. -/
  written : ∀ n ∈ manifestNames w directory,
    ¬ o.Overwritten (w.folder l) (manifestNames w directory) n →
      ∀ text documents new, w.readText (child directory n) = .ok text →
        parseDocuments text = .ok documents →
          writeDocuments (o.transformed n documents) = .ok new →
            w.folder l (o.destination n) ≠ some .directory →
              ∃ executable, w'.folder l (o.lastName directory l w n) =
                some (.file new.toUTF8 executable)
  /-- These documents are read from that text again when the tags in it are kept. -/
  readAgain : ∀ n ∈ manifestNames w directory,
    ∀ text documents new, w.readText (child directory n) = .ok text →
      parseDocuments text = .ok documents →
        (∀ d ∈ documents, Yaml.tagsSatisfy Yaml.keepsTag d = true) →
          writeDocuments (o.transformed n documents) = .ok new →
            parseDocuments new = .ok (o.transformed n documents)
  /-- No two manifests share a file. -/
  distinct : ∀ m ∈ manifestNames w directory, ∀ n ∈ manifestNames w directory,
    ¬ o.Overwritten (w.folder l) (manifestNames w directory) m →
      ¬ o.Overwritten (w.folder l) (manifestNames w directory) n →
        o.lastName directory l w m = o.lastName directory l w n → m = n
  /-- Every manifest that is left was one at the start. -/
  old : ∀ k ∈ manifestNames w' directory, ∃ n ∈ manifestNames w directory,
    ¬ o.Overwritten (w.folder l) (manifestNames w directory) n ∧ o.lastName directory l w n = k
  /-- When the turn of a manifest comes, it gets a name with dashes unless that is there. -/
  turn : ∀ n ∈ manifestNames w directory,
    ¬ o.Overwritten (w.folder l) (manifestNames w directory) n →
      ∃ before after, filesIn (o.between directory w) directory =
          before ++ child directory (o.middleName (w.folder l) n) :: after ∧
        o.lastName directory l w n =
          if (o.middleName (w.folder l) n).toList.contains '_' &&
              !(before.foldl renameFile
                ((filesIn w directory).foldl o.reviseFile (w, .empty))).1.exists?
                (withFileName (child directory (o.middleName (w.folder l) n))
                  (Revise.dashed (o.middleName (w.folder l) n)))
          then Revise.dashed (o.middleName (w.folder l) n) else o.middleName (w.folder l) n
  /-- A manifest that keeps its underscores is noted, and the name with dashes is taken. -/
  taken : ∀ n ∈ manifestNames w directory,
    ¬ o.Overwritten (w.folder l) (manifestNames w directory) n →
      '_' ∈ (o.lastName directory l w n).toList →
        w'.folder l (Revise.dashed (o.lastName directory l w n)) ≠ none ∧
          (child directory (o.lastName directory l w n),
            .nameTaken (withFileName (child directory (o.lastName directory l w n))
              (Revise.dashed (o.lastName directory l w n)))) ∈ r.problems
  /-- Each manifest is counted once when it is stored. -/
  counted : r.revised =
    ((manifestNames w directory).filter fun n => (o.stored (w.folder l) n).isOk).length
  /-- Any other one is noted. -/
  noted : ∀ n ∈ manifestNames w directory, ∀ problem, o.stored (w.folder l) n = .error problem →
    (o.problemPath directory n problem, problem) ∈ r.problems

section Run

variable (h : w.Plain directory l) (o : Revision)
include h

theorem middleName_mem (hn : n ∈ manifestNames w directory)
    (hKept : ¬ o.Overwritten (w.folder l) (manifestNames w directory) n) :
    o.middleName (w.folder l) n ∈ manifestNames (o.between directory w) directory := by
  obtain ⟨bytes, executable, hFile, -⟩ := exists_file_middleName h o hn hKept
  obtain ⟨hManifest, old, x, hOld⟩ := (mem_manifestNames h).1 hn
  refine (mem_manifestNames (steps_between h o).plain).2 ⟨?_, bytes, executable, hFile⟩
  cases hStored : o.stored (w.folder l) n with
  | error problem => rwa [middleName_of_error hStored]
  | ok text =>
    rw [middleName_of_ok hStored]
    exact isManifestName_destination h.nonempty (h.fits n _ hOld).isName hManifest

/-- After both rounds a manifest is under its last name as it was under its middle name. -/
theorem folder_lastName {w₂ : Workspace} (hn : n ∈ manifestNames w directory)
    (hKept : ¬ o.Overwritten (w.folder l) (manifestNames w directory) n)
    (hFolder : w₂.folder l = (manifestNames (o.between directory w) directory).foldl renameIn
      ((o.between directory w).folder l)) :
    w₂.folder l (o.lastName directory l w n) =
      (o.between directory w).folder l (o.middleName (w.folder l) n) := by
  have hPlain := (steps_between h o).plain
  rw [hFolder, lastName, foldl_renameIn_finalName (nodup_manifestNames hPlain)
    (ne_none_of_mem_manifestNames hPlain) (middleName_mem h o hn hKept)]

/-- What stands under the last name of a manifest for which nothing is stored. -/
theorem folder_lastName_of_error {w₂ : Workspace} {problem : Problem}
    (hn : n ∈ manifestNames w directory)
    (hKept : ¬ o.Overwritten (w.folder l) (manifestNames w directory) n)
    (hFolder : w₂.folder l = (manifestNames (o.between directory w) directory).foldl renameIn
      ((o.between directory w).folder l))
    (hStored : o.stored (w.folder l) n = .error problem) :
    w₂.folder l (o.lastName directory l w n) = w.folder l n := by
  obtain ⟨bytes, executable, hFile, hOld, -⟩ := exists_file_middleName h o hn hKept
  rw [folder_lastName h o hn hKept hFolder, hFile, hOld problem hStored]

/-- The turn of a manifest in the second round. -/
theorem lastName_eq (hn : n ∈ manifestNames w directory)
    (hKept : ¬ o.Overwritten (w.folder l) (manifestNames w directory) n) :
    ∃ before after, filesIn (o.between directory w) directory =
        before ++ child directory (o.middleName (w.folder l) n) :: after ∧
      o.lastName directory l w n =
        if (o.middleName (w.folder l) n).toList.contains '_' &&
            !(before.foldl renameFile
              ((filesIn w directory).foldl o.reviseFile (w, .empty))).1.exists?
              (withFileName (child directory (o.middleName (w.folder l) n))
                (Revise.dashed (o.middleName (w.folder l) n)))
        then Revise.dashed (o.middleName (w.folder l) n) else o.middleName (w.folder l) n := by
  have hPlain := (steps_between h o).plain
  have hMem := middleName_mem h o hn hKept
  obtain ⟨before, after, hNames, hBefore⟩ := List.eq_append_cons_of_mem hMem
  refine ⟨before.map (child directory), after.map (child directory), ?_, ?_⟩
  · rw [filesIn_eq, hNames, List.map_append, List.map_cons]
  · have hNodup := nodup_manifestNames hPlain
    rw [hNames] at hNodup
    have hFiles : ∀ m ∈ before, ∃ entry,
        (o.between directory w).folder l m = some entry ∧ entry.IsFile := by
      intro m hm
      refine isFile_of_mem_manifestNames hPlain ?_
      rw [hNames]
      exact List.mem_append_left _ hm
    have hState : (filesIn w directory).foldl o.reviseFile (w, .empty) =
        (o.between directory w, ((filesIn w directory).foldl o.reviseFile (w, .empty)).2) := rfl
    obtain ⟨v, s, hFold, hSteps, -⟩ := foldl_renameFile hPlain (List.nodup_append.1 hNodup).1 hFiles
      ((filesIn w directory).foldl o.reviseFile (w, .empty)).2
    have hFits := fits_manifestNames hPlain _ hMem
    have hReaches := hSteps.plain.reaches_other hFits (isName_dashed hFits.isName)
      (Nat.le_of_eq (utf8ByteSize_dashed _))
    have hExists := Workspace.exists?_of_reaches (hSteps.plain.noLink _) hReaches
    rw [hState, hFold, hExists, hSteps.folder, lastName, hNames, finalName_eq hBefore, newName,
      Option.not_isSome]

/-- What stands in the directory after both rounds is no manifest and was there before, or it is a
manifest under its last name. -/
theorem of_folder_run {w₂ : Workspace} {entry : Entry}
    (hSteps : Steps directory l (o.between directory w) w₂
      ((manifestNames (o.between directory w) directory).foldl renameIn
        ((o.between directory w).folder l)))
    (hEntry : w₂.folder l k = some entry) :
    (IsNoManifest directory (k, entry) ∧ w.folder l k = some entry) ∨
      (k ∈ manifestNames w₂ directory ∧ ∃ n ∈ manifestNames w directory,
        ¬ o.Overwritten (w.folder l) (manifestNames w directory) n ∧
          o.lastName directory l w n = k) := by
  have hPlain := (steps_between h o).plain
  have hFiles := ne_none_of_mem_manifestNames hPlain
  have hEnd := hEntry
  rw [hSteps.folder] at hEntry
  rcases of_foldl_renameIn (nodup_manifestNames hPlain) hFiles hEntry with
    ⟨hNotMem, hMiddle⟩ | ⟨m, hm, hLast⟩
  · rcases of_folder_between h o hMiddle with hOld | ⟨n, hn, hKept, rfl⟩
    · exact .inl hOld
    · exact absurd (middleName_mem h o hn hKept) hNotMem
  · right
    obtain ⟨other, hOther, bytes, executable, rfl⟩ := isFile_of_mem_manifestNames hPlain hm
    have hSame := foldl_renameIn_finalName (nodup_manifestNames hPlain) hFiles hm
    constructor
    · rw [hLast, hEntry, hOther] at hSame
      refine (mem_manifestNames hSteps.plain).2 ⟨?_, bytes, executable, hEnd.trans hSame⟩
      obtain ⟨hManifest, -⟩ := (mem_manifestNames hPlain).1 hm
      rw [← hLast]
      rcases newName_cases _ m with hStays | ⟨-, -, hNew⟩
      · rw [finalName, hStays]
        exact hManifest
      · rw [finalName, hNew]
        exact isManifestName_dashed h.nonempty (hPlain.fits m _ hOther).isName hManifest
    · rcases of_folder_between h o hOther with ⟨hNo, -⟩ | ⟨n, hn, hKept, hMiddle⟩
      · exact absurd hNo ((mem_manifestNames_iff hPlain hOther).1 hm)
      · exact ⟨n, hn, hKept, by rw [lastName, hMiddle, hLast]⟩

/-- What is no manifest is there after both rounds. -/
theorem folder_run_of_isNoManifest {w₂ : Workspace} {entry : Entry}
    (hSteps : Steps directory l (o.between directory w) w₂
      ((manifestNames (o.between directory w) directory).foldl renameIn
        ((o.between directory w).folder l)))
    (hEntry : w.folder l k = some entry) (hNo : IsNoManifest directory (k, entry)) :
    w₂.folder l k = some entry := by
  have hMiddle := folder_between_of_isNoManifest h o hEntry hNo
  rw [hSteps.folder, foldl_renameIn_of_ne (by simp [hMiddle]), hMiddle]
  rintro n hn rfl
  exact absurd hNo ((mem_manifestNames_iff (steps_between h o).plain hMiddle).1 hn)

/-- Beside a manifest that keeps its underscores stands an entry under the name with dashes. -/
theorem folder_dashed_lastName {w₂ : Workspace} (hn : n ∈ manifestNames w directory)
    (hKept : ¬ o.Overwritten (w.folder l) (manifestNames w directory) n)
    (hFolder : w₂.folder l = (manifestNames (o.between directory w) directory).foldl renameIn
      ((o.between directory w).folder l))
    (hName : '_' ∈ (o.lastName directory l w n).toList) :
    w₂.folder l (Revise.dashed (o.lastName directory l w n)) ≠ none := by
  have hPlain := (steps_between h o).plain
  have hSame := lastName_of_underscore hName
  rw [hSame] at hName ⊢
  rw [hFolder]
  exact taken_of_finalName_eq_self (nodup_manifestNames hPlain)
    (ne_none_of_mem_manifestNames hPlain) (middleName_mem h o hn hKept) hName hSame

/-- A revision of a plain directory loses nothing but manifests that are overwritten. -/
theorem lossless_run : Lossless o directory l w (o.run directory w).1 (o.run directory w).2 := by
  obtain ⟨w₂, r, hRun, hSteps, hRevised, hProblems⟩ := run_eq h o
  have hBetween := steps_between h o
  have hPlain := hBetween.plain
  have hNodup := nodup_manifestNames hPlain
  have hFiles := ne_none_of_mem_manifestNames hPlain
  have hError : ∀ n ∈ manifestNames w directory,
      ¬ o.Overwritten (w.folder l) (manifestNames w directory) n →
        ∀ problem, o.stored (w.folder l) n = .error problem →
          w₂.folder l (o.lastName directory l w n) = w.folder l n :=
    fun n hn hKept problem hStored => folder_lastName_of_error h o hn hKept hSteps.folder hStored
  rw [hRun]
  exact {
    outside := hBetween.same.trans hSteps.same
    others := by
      intro k entry hNo
      constructor
      · intro hEntry
        rcases of_folder_run h o hSteps hEntry with ⟨-, hOld⟩ | ⟨hk, -⟩
        · exact hOld
        · exact absurd hNo ((mem_manifestNames_iff hSteps.plain hEntry).1 hk)
      · intro hEntry
        exact folder_run_of_isNoManifest h o hSteps hEntry hNo
    unread := by
      intro n hn hKept e hText
      refine hError n hn hKept (.unreadable e) ?_
      rw [stored_eq h (fits_manifestNames h _ hn) o, hText]
    unparsed := by
      intro n hn hKept text e hText hParse
      refine hError n hn hKept (.notDocuments e) ?_
      rw [stored_eq h (fits_manifestNames h _ hn) o, hText]
      simp only [hParse]
    unwritten := by
      intro n hn hKept text documents hText hParse hNone
      cases hWrite : writeDocuments (o.transformed n documents) with
      | error e =>
        refine hError n hn hKept (.notWritable e) ?_
        rw [stored_eq h (fits_manifestNames h _ hn) o, hText]
        simp only [hParse, hWrite]
      | ok new =>
        rcases hNone with ⟨e, hFailed⟩ | hDirectory
        · simp [hWrite] at hFailed
        · refine hError n hn hKept (.unwritable .isDirectory) ?_
          rw [stored_eq h (fits_manifestNames h _ hn) o, hText]
          simp only [hParse, hWrite, Folder.hasDirectory_iff.2 hDirectory, if_true]
    written := by
      intro n hn hKept text documents new hText hParse hWrite hFree
      have hStored : o.stored (w.folder l) n = .ok new := by
        have hNone : (w.folder l).hasDirectory (o.destination n) = false := by
          rw [Bool.eq_false_iff, ne_eq, Folder.hasDirectory_iff]
          exact hFree
        rw [stored_eq h (fits_manifestNames h _ hn) o, hText]
        simp only [hParse, hWrite, hNone, Bool.false_eq_true, if_false]
      obtain ⟨bytes, executable, hFile, -, hBytes⟩ := exists_file_middleName h o hn hKept
      refine ⟨executable, ?_⟩
      rw [folder_lastName h o hn hKept hSteps.folder, hFile, hBytes new hStored]
    readAgain := fun _ _ _ _ _ _ hParse hTags hWrite =>
      parseDocuments_transformed hParse hTags hWrite
    distinct := by
      intro m hm n hn hmKept hnKept hSame
      refine middleName_inj hm hn hmKept hnKept ?_
      exact finalName_inj hNodup hFiles (middleName_mem h o hm hmKept)
        (middleName_mem h o hn hnKept) hSame
    old := by
      intro k hk
      obtain ⟨entry, hEntry, -⟩ := isFile_of_mem_manifestNames hSteps.plain hk
      rcases of_folder_run h o hSteps hEntry with ⟨hNo, -⟩ | ⟨-, hOld⟩
      · exact absurd hNo ((mem_manifestNames_iff hSteps.plain hEntry).1 hk)
      · exact hOld
    turn := fun n hn hKept => lastName_eq h o hn hKept
    taken := by
      intro n hn hKept hName
      refine ⟨folder_dashed_lastName h o hn hKept hSteps.folder hName, ?_⟩
      have hSame := lastName_of_underscore hName
      rw [hProblems]
      rw [hSame] at hName ⊢
      exact mem_notedAll (middleName_mem h o hn hKept) hName hSame
    counted := by rw [hRevised, countedAll_eq]
    noted := by
      intro n hn problem hStored
      rw [hProblems, countedAll_eq]
      refine subset_notedAll _ _ _ _ (List.mem_filterMap.2 ⟨n, hn, ?_⟩)
      rw [hStored] }

end Run

/-! ### A home with manifests -/

open Workspace (homeWith)

/-- A revision that changes nothing but underscores and makes a daemon set of one deployment. -/
def webEverywhere : Revision := ⟨none, none, ["web"]⟩

/-- A deployment that becomes a daemon set, a file whose name with dashes is taken, one that is no
text, and a directory under the name of a manifest. -/
def mixedEntries : List (String × Entry) :=
  [("web-deployment.yaml", .file "kind: Deployment\n".toUTF8 false),
   ("a_b.yaml", .file "kind: Service\n".toUTF8 false),
   ("a-b.yaml", .file ⟨#[0xff]⟩ true),
   ("c.yml", .directory)]

theorem plain_mixedEntries : (homeWith mixedEntries).Plain "." ["home"] := by
  refine Workspace.plain_homeWith (by decide) (by decide) ?_
  simp [mixedEntries]

theorem lossless_run_mixedEntries :
    Lossless webEverywhere "." ["home"] (homeWith mixedEntries)
      (webEverywhere.run "." (homeWith mixedEntries)).1
      (webEverywhere.run "." (homeWith mixedEntries)).2 :=
  lossless_run plain_mixedEntries webEverywhere

/-- A manifest with underscores in its name and a mapping for a key. -/
def keyedDocument : Yaml :=
  .fields
    [("metadata", .fields [("name", .str "a_b")]),
     ("spec", .map [(.fields [("a", .str "b")], .str "c")])]

def keyedText : String := "metadata:\n  name: a_b\nspec:\n  ? a: b\n  : c\n"

theorem parseDocuments_keyedText : parseDocuments keyedText = .ok [keyedDocument] := by
  decide +kernel

theorem folder_keyed (k : String) :
    (homeWith [("a.yaml", .file keyedText.toUTF8 false)]).folder ["home"] k =
      if k == "a.yaml" then some (.file keyedText.toUTF8 false) else none := by
  rw [Workspace.folder, Workspace.entries_homeWith]
  rfl

theorem stored_keyedText
    (hPlain : (homeWith [("a.yaml", .file keyedText.toUTF8 false)]).Plain "." ["home"])
    (hn : n ∈ manifestNames (homeWith [("a.yaml", .file keyedText.toUTF8 false)]) ".") :
    ∃ problem, Revision.stored ⟨none, none, []⟩
      ((homeWith [("a.yaml", .file keyedText.toUTF8 false)]).folder ["home"]) n =
        .error problem := by
  obtain ⟨-, bytes, executable, hFile⟩ := (mem_manifestNames hPlain).1 hn
  rw [folder_keyed] at hFile
  split at hFile
  · rename_i hName
    obtain rfl : n = "a.yaml" := by simpa using hName
    have hUnwritable :
        Yaml.isWritable false (Revision.revised ⟨none, none, []⟩ keyedDocument) = false := by
      decide +kernel
    have hTransformed : Revision.transformed ⟨none, none, []⟩ "a.yaml" [keyedDocument] =
        [Revision.revised ⟨none, none, []⟩ keyedDocument] := by
      rw [transformed, daemonName?_of_nil rfl]
      rfl
    have hNoText : ∃ e,
        writeDocuments [Revision.revised ⟨none, none, []⟩ keyedDocument] = .error e := by
      cases hWrite : (Revision.revised ⟨none, none, []⟩ keyedDocument).write with
      | ok text =>
        rw [(Yaml.write_eq_ok_iff.1 hWrite).1] at hUnwritable
        simp at hUnwritable
      | error e =>
        refine ⟨e, ?_⟩
        rw [writeDocuments, List.mapM_cons, hWrite]
        rfl
    obtain ⟨e, hError⟩ := hNoText
    refine ⟨.notWritable e, ?_⟩
    rw [stored, Folder.read, folder_keyed, if_pos (beq_self_eq_true _)]
    simp only [rewritten, Text.fromUTF8?_toUTF8, parseDocuments_keyedText, hTransformed, hError]
  · simp at hFile

/-- A document that is read and revised, but has no text then, is left as it was, so that no file
holds what the revision makes of it. -/
theorem not_transformed_of_unwritable :
    (homeWith [("a.yaml", .file keyedText.toUTF8 false)]).Plain "." ["home"] ∧
      parseDocuments keyedText = .ok [keyedDocument] ∧
      ∀ k bytes executable,
        (Revision.run ⟨none, none, []⟩ "."
          (homeWith [("a.yaml", .file keyedText.toUTF8 false)])).1.folder ["home"] k =
            some (.file bytes executable) →
          ∀ text, bytes = text.toUTF8 →
            parseDocuments text ≠ .ok [Revision.revised ⟨none, none, []⟩ keyedDocument] := by
  have hPlain : (homeWith [("a.yaml", .file keyedText.toUTF8 false)]).Plain "." ["home"] :=
    Workspace.plain_homeWith (by decide) (by decide) (by simp)
  refine ⟨hPlain, parseDocuments_keyedText, ?_⟩
  obtain ⟨w₂, r, hRun, hSteps, -⟩ := run_eq hPlain ⟨none, none, []⟩
  rw [hRun]
  intro k bytes executable hEntry text hBytes
  have hOld : ∃ n, (homeWith [("a.yaml", .file keyedText.toUTF8 false)]).folder ["home"] n =
      some (.file bytes executable) := by
    rcases of_folder_run hPlain _ hSteps hEntry with ⟨-, hOld⟩ | ⟨-, n, hn, hKept, rfl⟩
    · exact ⟨k, hOld⟩
    · obtain ⟨problem, hStored⟩ := stored_keyedText hPlain hn
      refine ⟨n, ?_⟩
      rw [← hEntry, folder_lastName_of_error hPlain _ hn hKept hSteps.folder hStored]
  obtain ⟨n, hn⟩ := hOld
  rw [folder_keyed] at hn
  have hSame : keyedText.toUTF8 = text.toUTF8 := by
    split at hn
    · simp only [Option.some.injEq, Entry.file.injEq] at hn
      rw [hn.1, hBytes]
    · simp at hn
  have hText : keyedText = text := by
    have hRead := Text.fromUTF8?_toUTF8 text
    rw [← hSame, Text.fromUTF8?_toUTF8, Option.some.injEq] at hRead
    exact hRead
  rw [← hText, parseDocuments_keyedText]
  have hRevised : keyedDocument ≠ Revision.revised ⟨none, none, []⟩ keyedDocument := by
    decide +kernel
  intro hEq
  rw [Except.ok.injEq, List.cons.injEq] at hEq
  exact hRevised hEq.1

end Revision

end Manifest

end KubeCompose
