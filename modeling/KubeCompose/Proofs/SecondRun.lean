import KubeCompose.Proofs.Lossless

/-!
# A revision that is made again

What a revision leaves of a plain directory is left as it is by a second one: its documents have
nothing left for any pass, and a name that keeps its underscores is taken. This holds as long as no
text that the revision writes is read as other documents than those it was written for, as happens
to some tags, and as no manifest becomes the deployment of a daemon set by getting its name with
dashes, or is one that could be stored only then.
-/

namespace KubeCompose

open KubeCompose.Path (IsName child withFileName)
open Workspace (Plain Fits SameOutside)
open Revise (dashed dashed_append dashed_eq_ofList)

/-! ### Names with dashes -/

namespace Name

open Text (asciiLower)

/-- With dashes for its underscores, a text has the same normal form. -/
theorem normalize_dashed (s : String) : normalize (dashed s) = normalize s := by
  have hLower : asciiLower '_' = '_' := by decide
  have hDash : asciiLower '-' = '-' := by decide
  have hNoLabel : isLabelChar '_' = false ∧ isLabelChar '-' = false := by decide
  have hCollapse : ∀ (cs : List Char) (atDash : Bool),
      collapse atDash (cs.map fun c => if c = '_' then '-' else c) = collapse atDash cs := by
    intro cs
    induction cs with
    | nil => exact fun _ => rfl
    | cons c r ih =>
      intro atDash
      rw [List.map_cons, collapse, collapse]
      by_cases hc : c = '_'
      · simp only [hc, if_true, hLower, hDash, hNoLabel, ih, Bool.false_eq_true, if_false]
      · simp only [hc, if_false, ih]
  rw [normalize, normalize, normalChars, normalChars, dashed, String.toList_map, hCollapse]

end Name

namespace Manifest.Revision

variable {o : Revision} {f : Folder} {k n name directory : String} {w : Workspace} {l : Location}

/-- A service runs on every node when one of those asked for has the same normal form. -/
theorem isDaemon_iff (o : Revision) (stem : String) :
    o.isDaemon stem = true ↔
      ∃ service ∈ o.daemonServices, Name.normalize service = Name.normalize stem := by
  rw [isDaemon]
  simp only [Bool.or_eq_true, List.contains_iff_mem, List.mem_flatMap, List.mem_cons,
    List.not_mem_nil, or_false]
  constructor
  · rintro (⟨service, hService, hStem⟩ | ⟨service, hService, hStem⟩)
    · refine ⟨service, hService, ?_⟩
      rcases hStem with rfl | rfl
      · rfl
      · rw [Name.normalize_idem]
    · refine ⟨service, hService, ?_⟩
      rcases hStem with hStem | hStem
      · rw [← hStem, Name.normalize_idem]
      · exact hStem.symm
  · rintro ⟨service, hService, hSame⟩
    exact .inr ⟨service, hService, .inr hSame.symm⟩

theorem isDaemon_dashed (o : Revision) (stem : String) :
    o.isDaemon (dashed stem) = o.isDaemon stem := by
  rw [Bool.eq_iff_iff, isDaemon_iff, isDaemon_iff, Name.normalize_dashed]

theorem daemonName?_isSome_iff :
    (o.daemonName? name).isSome = true ↔
      ∃ stem, name = stem ++ "-deployment.yaml" ∧ o.isDaemon stem = true := by
  constructor
  · intro h
    obtain ⟨target, hTarget⟩ := Option.isSome_iff_exists.1 h
    obtain ⟨stem, hName, -, hDaemon⟩ := daemonName?_eq_some hTarget
    exact ⟨stem, hName, hDaemon⟩
  · rintro ⟨stem, rfl, hDaemon⟩
    have hDrop : Text.dropEnd? "-deployment.yaml".toList (stem ++ "-deployment.yaml").toList =
        some stem.toList := by
      rw [String.toList_append, Text.dropEnd?_append]
    rw [daemonName?, hDrop]
    simp only [String.ofList_toList, hDaemon, if_true, Option.isSome_some]

/-- With dashes, a deployment that becomes a daemon set is still one. -/
theorem isSome_daemonName?_dashed (h : (o.daemonName? name).isSome = true) :
    (o.daemonName? (dashed name)).isSome = true := by
  obtain ⟨stem, rfl, hDaemon⟩ := daemonName?_isSome_iff.1 h
  have hEnd : dashed "-deployment.yaml" = "-deployment.yaml" := Revise.dashed_eq_self (by decide)
  exact daemonName?_isSome_iff.2
    ⟨dashed stem, by rw [dashed_append, hEnd], by rwa [isDaemon_dashed]⟩

/-- The name of a daemon set is not that of a deployment, with underscores or with dashes. -/
theorem daemonName?_daemonSet (o : Revision) (stem : String) :
    o.daemonName? (stem ++ "-daemonset.yaml") = none ∧
      o.daemonName? (dashed (stem ++ "-daemonset.yaml")) = none := by
  have hNone : ∀ stem, o.daemonName? (stem ++ "-daemonset.yaml") = none := by
    intro stem
    rw [← Option.not_isSome_iff_eq_none, daemonName?_isSome_iff]
    rintro ⟨other, hName, -⟩
    exact deployment_ne_daemonSet other stem hName.symm
  have hEnd : dashed "-daemonset.yaml" = "-daemonset.yaml" := Revise.dashed_eq_self (by decide)
  exact ⟨hNone stem, by rw [dashed_append, hEnd, hNone]⟩

/-! ### Manifests that are stored again -/

/-- The text that a revision makes of bytes depends on a name only in whether it is that of a
deployment which becomes a daemon set. -/
theorem rewritten_congr {m : String} (h : (o.daemonName? m).isSome = (o.daemonName? n).isSome)
    (bytes : ByteArray) : o.rewritten m bytes = o.rewritten n bytes := by
  have hTransformed : ∀ documents, o.transformed m documents = o.transformed n documents := by
    intro documents
    rw [transformed, transformed, h]
  simp only [rewritten, hTransformed]

/-- The text of a file is read under its path. -/
theorem readText_of_file {bytes : ByteArray} {executable : Bool} {text : String}
    (h : w.Plain directory l) (hFile : w.folder l n = some (.file bytes executable))
    (hText : String.fromUTF8? bytes = some text) :
    w.readText (child directory n) = .ok text := by
  rw [readText_child h (h.fits n _ hFile), Folder.read, hFile]
  simp only [hText]

/-- A file that holds what is stored for it stays as it is. -/
theorem reviseIn_eq_self {text : String} {executable : Bool} (hName : o.daemonName? k = none)
    (hFile : f k = some (.file text.toUTF8 executable))
    (hStored : o.rewritten k text.toUTF8 = .ok text) : o.reviseIn f k = f := by
  have hPlace : o.destination k = k := by rw [destination, hName, Option.getD_none]
  have hFree : f.hasDirectory (o.destination k) = false := by
    rw [hPlace, Folder.hasDirectory, hFile]
  have hHere : o.stored f k = .ok text := by
    rw [stored, Folder.read, hFile]
    simp only [hStored, hFree, Bool.false_eq_true, if_false]
  rw [reviseIn_of_ok hHere, hPlace, Function.update_idem, Folder.isExecutable, hFile]
  exact Function.update_eq_self_iff.2 hFile.symm

/-- Revised documents that are read back are written as before. -/
theorem rewritten_transformed {documents : List Yaml} {text : String}
    (hKeys : ∀ d ∈ documents, Revise.TopKeysDiffer d)
    (hWrite : writeDocuments (o.transformed n documents) = .ok text)
    (hReads : parseDocuments text = .ok (o.transformed n documents))
    (hName : o.daemonName? k = none) : o.rewritten k text.toUTF8 = .ok text := by
  have hAgain : o.transformed k (o.transformed n documents) = o.transformed n documents := by
    rw [transformed, hName]
    simp only [Option.isSome_none, Bool.false_eq_true, if_false]
    conv_rhs => rw [← List.map_id (o.transformed n documents)]
    refine List.map_congr_left fun d hd => ?_
    rw [transformed] at hd
    split at hd
    · rw [List.map_map] at hd
      obtain ⟨old, hOld, rfl⟩ := List.mem_map.1 hd
      exact o.revised_toDaemonSet_revised (hKeys old hOld)
    · obtain ⟨old, -, rfl⟩ := List.mem_map.1 hd
      exact o.revised_revised old
  simp only [rewritten, Text.fromUTF8?_toUTF8, hReads, hAgain, hWrite]

/-- A run leaves all names of a plain directory when every manifest is stored in its place and every
name with dashes is taken; it is a step for each manifest. -/
theorem folder_run_of_self (h : w.Plain directory l) (o : Revision)
    (hSelf : ∀ m ∈ manifestNames w directory, ∀ text, o.stored (w.folder l) m = .ok text →
      o.destination m = m)
    (hTaken : ∀ m ∈ manifestNames w directory, '_' ∈ m.toList →
      w.folder l (dashed m) ≠ none) :
    SameOutside l w (o.run directory w).1 ∧ ∀ k, (o.run directory w).1.folder l k =
      if k ∈ manifestNames w directory then o.reviseIn (w.folder l) k k else w.folder l k := by
  obtain ⟨w', r, hRun, hSteps, -⟩ := run_eq h o
  have hBetween := steps_between h o
  have hEach : ∀ k, (o.between directory w).folder l k =
      if k ∈ manifestNames w directory then o.reviseIn (w.folder l) k k else w.folder l k := by
    intro k
    rw [hBetween.folder, foldl_reviseIn_of_self (sorted_manifestNames h) hSelf]
  have hThere : ∀ k, w.folder l k ≠ none → (o.between directory w).folder l k ≠ none := by
    intro k hk
    rw [hEach]
    split
    · rename_i hName
      exact reviseIn_self_ne_none hk (hSelf k hName)
    · exact hk
  have hNames : ∀ n ∈ manifestNames (o.between directory w) directory,
      newName ((o.between directory w).folder l) n = n := by
    intro n hn
    obtain ⟨hManifest, bytes, executable, hFile⟩ := (mem_manifestNames hBetween.plain).1 hn
    have hOld : n ∈ manifestNames w directory := by
      by_contra hNo
      rw [hEach, if_neg hNo] at hFile
      exact hNo ((mem_manifestNames h).2 ⟨hManifest, bytes, executable, hFile⟩)
    rcases newName_cases ((o.between directory w).folder l) n with hSame | ⟨hName, hFree, -⟩
    · exact hSame
    · exact absurd hFree (hThere _ (hTaken n hOld hName))
  rw [hRun]
  refine ⟨hBetween.same.trans hSteps.same, fun k => ?_⟩
  rw [hSteps.folder, foldl_renameIn_eq_self hNames, hEach]

/-! ### The folder after the first run -/

/-- What is stored for a manifest is read as other documents than those it was written for. -/
def ReadsOtherwise (o : Revision) (directory : String) (l : Location) (w : Workspace) (n : String) :
    Prop :=
  ∃ text documents new other, w.readText (child directory n) = .ok text ∧
    parseDocuments text = .ok documents ∧ o.stored (w.folder l) n = .ok new ∧
      parseDocuments new = .ok other ∧ other ≠ o.transformed n documents

/-- A manifest, as far as it can be read, has only tags that are kept. -/
def KeepsTags (directory : String) (w : Workspace) (n : String) : Prop :=
  ∀ text documents, w.readText (child directory n) = .ok text →
    parseDocuments text = .ok documents → ∀ d ∈ documents, Yaml.tagsSatisfy Yaml.keepsTag d = true

theorem not_readsOtherwise (h : w.Plain directory l) (hTags : KeepsTags directory w n) :
    ¬ o.ReadsOtherwise directory l w n := by
  rintro ⟨text, documents, new, other, hRead, hParse, hStored, hOther, hNe⟩
  obtain ⟨⟨bytes, executable, hFile, hText⟩, -⟩ := of_stored_eq_ok hStored
  obtain ⟨old, before, hBytes, hBefore, hWrite⟩ := of_rewritten_eq_ok hText
  obtain rfl := Except.ok.inj (hRead.symm.trans (readText_of_file h hFile hBytes))
  obtain rfl := Except.ok.inj (hParse.symm.trans hBefore)
  have hBack := parseDocuments_transformed hParse (hTags text documents hRead hParse) hWrite
  exact hNe (Except.ok.inj (hOther.symm.trans hBack))

/-- A manifest gets the name of a deployment that is to be a daemon set only when it gets dashes,
and can be stored as one then. -/
structure Late (o : Revision) (directory : String) (l : Location) (w : Workspace) (n : String) :
    Prop where
  renamed : o.lastName directory l w n ≠ n
  daemon : (o.daemonName? (o.lastName directory l w n)).isSome = true
  free : w.folder l (o.destination (o.lastName directory l w n)) ≠ some .directory
  writable : (∃ new, o.stored (w.folder l) n = .ok new) ∨
    ∃ text documents new, w.readText (child directory n) = .ok text ∧
      parseDocuments text = .ok documents ∧
      writeDocuments (o.transformed (o.lastName directory l w n) documents) = .ok new

section FirstRun

variable {w₂ : Workspace} {text new : String} (h : w.Plain directory l)
  (hSteps : Steps directory l (o.between directory w) w₂
    ((manifestNames (o.between directory w) directory).foldl renameIn
      ((o.between directory w).folder l)))
include h hSteps

/-- A manifest that was stored is stored for no daemon set again, unless it is late. -/
theorem daemonName?_lastName_of_ok (hLate : ¬ o.Late directory l w n)
    (hStored : o.stored (w.folder l) n = .ok new)
    (hFree : w₂.folder l (o.destination (o.lastName directory l w n)) ≠ some .directory) :
    o.daemonName? (o.lastName directory l w n) = none := by
  rw [← Option.not_isSome_iff_eq_none]
  intro hDaemon
  have hLast := o.lastName_cases directory l w n
  rw [middleName_of_ok hStored] at hLast
  rcases o.destination_cases n with ⟨hNone, -⟩ | ⟨stem, -, -, -, hPlace⟩
  · refine hLate ⟨fun hSame => ?_, hDaemon, fun hDirectory => hFree ?_, .inl ⟨new, hStored⟩⟩
    · rw [hSame, hNone] at hDaemon
      exact absurd hDaemon (by simp)
    · exact folder_run_of_isNoManifest h o hSteps hDirectory (.inr fun _ _ => by simp)
  · -- it has become a daemon set
    obtain ⟨hNone, hDashedNone⟩ := daemonName?_daemonSet o stem
    rw [← hPlace] at hNone hDashedNone
    rcases hLast with hSame | hSame
    · rw [hSame, hNone] at hDaemon
      exact absurd hDaemon (by simp)
    · rw [hSame, hDashedNone] at hDaemon
      exact absurd hDaemon (by simp)

variable (hn : n ∈ manifestNames w directory)
  (hKept : ¬ o.Overwritten (w.folder l) (manifestNames w directory) n)
include hn hKept

/-- A manifest for which nothing was stored is not stored by a second run, unless it is late. -/
theorem stored_lastName_of_error {problem : Problem} (hLate : ¬ o.Late directory l w n)
    (hStored : o.stored (w.folder l) n = .error problem) :
    ∃ problem', o.stored (w₂.folder l) (o.lastName directory l w n) = .error problem' := by
  cases hAgain : o.stored (w₂.folder l) (o.lastName directory l w n) with
  | error problem' => exact ⟨problem', rfl⟩
  | ok text =>
    exfalso
    obtain ⟨⟨bytes, executable, hFile, hText⟩, hFree⟩ := of_stored_eq_ok hAgain
    have hOld := folder_lastName_of_error h o hn hKept hSteps.folder hStored
    rw [hFile] at hOld
    have hLast := o.lastName_cases directory l w n
    rw [middleName_of_error hStored] at hLast
    have hDirectory : ∀ k, w.folder l k = some .directory → w₂.folder l k = some .directory :=
      fun k hk => folder_run_of_isNoManifest h o hSteps hk (.inr fun _ _ => by simp)
    by_cases hDaemon : (o.daemonName? (o.lastName directory l w n)).isSome = true
    · by_cases hSame : o.lastName directory l w n = n
      · rw [hSame] at hText hFree
        have hTaken := hasDirectory_of_stored_eq_error hOld.symm hText hStored
        rw [Folder.hasDirectory_iff.2 (hDirectory _ (Folder.hasDirectory_iff.1 hTaken))] at hFree
        exact absurd hFree (by simp)
      · obtain ⟨old, documents, hBytes, hParse, hWrite⟩ := of_rewritten_eq_ok hText
        refine hLate ⟨hSame, hDaemon, fun hTaken => ?_, .inr ⟨old, documents, text, ?_, hParse,
          hWrite⟩⟩
        · rw [Folder.hasDirectory_iff.2 (hDirectory _ hTaken)] at hFree
          exact absurd hFree (by simp)
        · exact readText_of_file h hOld.symm hBytes
    · -- neither is it the deployment of a daemon set under its old name
      have hNot : (o.daemonName? n).isSome = false := by
        rw [Bool.eq_false_iff]
        intro hSome
        refine hDaemon ?_
        rcases hLast with hSame | hSame
        · rwa [hSame]
        · rw [hSame]
          exact isSome_daemonName?_dashed hSome
      have hNone : o.destination n = n := by
        rw [destination, Option.isNone_iff_eq_none.1 (Option.isSome_eq_false_iff.1 hNot),
          Option.getD_none]
      rw [rewritten_congr (n := n) (by rw [hNot, Bool.eq_false_iff.2 hDaemon])] at hText
      have hTaken := hasDirectory_of_stored_eq_error hOld.symm hText hStored
      rw [hNone, Folder.hasDirectory_iff, ← hOld] at hTaken
      exact absurd hTaken (by simp)

/-- A second run stores no manifest for a daemon set. -/
theorem daemonName?_lastName (hLate : ¬ o.Late directory l w n)
    (hAgain : o.stored (w₂.folder l) (o.lastName directory l w n) = .ok text) :
    o.daemonName? (o.lastName directory l w n) = none := by
  cases hStored : o.stored (w.folder l) n with
  | error problem =>
    obtain ⟨problem', hError⟩ := stored_lastName_of_error h hSteps hn hKept hLate hStored
    rw [hError] at hAgain
    exact absurd hAgain (by simp)
  | ok new =>
    obtain ⟨-, hFree⟩ := of_stored_eq_ok hAgain
    refine daemonName?_lastName_of_ok h hSteps hLate hStored fun hTaken => ?_
    rw [Folder.hasDirectory_iff.2 hTaken] at hFree
    exact absurd hFree (by simp)

/-- What is not read as other documents is left as it is when its turn comes in a second run. -/
theorem reviseIn_lastName (hLate : ¬ o.Late directory l w n)
    (hReads : ¬ o.ReadsOtherwise directory l w n) :
    o.reviseIn (w₂.folder l) (o.lastName directory l w n) = w₂.folder l := by
  cases hAgain : o.stored (w₂.folder l) (o.lastName directory l w n) with
  | error problem => exact reviseIn_of_error hAgain
  | ok text =>
    have hNone := daemonName?_lastName h hSteps hn hKept hLate hAgain
    cases hStored : o.stored (w.folder l) n with
    | error problem =>
      obtain ⟨problem', hError⟩ := stored_lastName_of_error h hSteps hn hKept hLate hStored
      rw [hError] at hAgain
      exact absurd hAgain (by simp)
    | ok new =>
      obtain ⟨⟨bytes, executable, hOld, hText⟩, -⟩ := of_stored_eq_ok hStored
      obtain ⟨old, documents, hBytes, hParse, hWrite⟩ := of_rewritten_eq_ok hText
      have hRead := readText_of_file h hOld hBytes
      obtain ⟨newBytes, x, hFile, -, hNew⟩ := exists_file_middleName h o hn hKept
      rw [← folder_lastName h o hn hKept hSteps.folder, hNew new hStored] at hFile
      -- it can be stored again, so its text is read
      obtain ⟨⟨bytesAgain, y, hThere, hTextAgain⟩, -⟩ := of_stored_eq_ok hAgain
      obtain ⟨read, other, hSame, hOther, -⟩ := of_rewritten_eq_ok hTextAgain
      rw [hFile, Option.some.injEq, Entry.file.injEq] at hThere
      rw [← hThere.1, Text.fromUTF8?_toUTF8, Option.some.injEq] at hSame
      rw [← hSame] at hOther
      have hBack : other = o.transformed n documents := by
        by_contra hNe
        exact hReads ⟨old, documents, new, other, hRead, hParse, hStored, hOther, hNe⟩
      rw [hBack] at hOther
      exact reviseIn_eq_self hNone hFile
        (rewritten_transformed (topKeysDiffer_of_parseDocuments hParse) hWrite hOther hNone)

end FirstRun

/-! ### The second run -/

/-- A second run, which leaves what a first one has made of a directory. -/
structure Unchanged (o : Revision) (directory : String) (l : Location) (w w' w'' : Workspace) :
    Prop where
  /-- Nothing outside the directory changes. -/
  outside : SameOutside l w' w''
  /-- Every name stays, and no new one comes. -/
  names : ∀ k, w''.folder l k = none ↔ w'.folder l k = none
  /-- What stands under a name stays unless it was stored and is read as other documents. -/
  entries : ∀ k,
    (∀ n ∈ manifestNames w directory,
      ¬ o.Overwritten (w.folder l) (manifestNames w directory) n →
        o.lastName directory l w n = k → ¬ o.ReadsOtherwise directory l w n) →
      w''.folder l k = w'.folder l k

/-- A second run leaves everything as the first one left it, as long as no manifest is late. Only
what has a tag that is not kept may be read as other documents. -/
theorem unchanged_run_run (h : w.Plain directory l) (o : Revision)
    (hLate : ∀ n ∈ manifestNames w directory,
      ¬ o.Overwritten (w.folder l) (manifestNames w directory) n → ¬ o.Late directory l w n) :
    Unchanged o directory l w (o.run directory w).1
        (o.run directory (o.run directory w).1).1 ∧
      ∀ n, KeepsTags directory w n → ¬ o.ReadsOtherwise directory l w n := by
  refine ⟨?_, fun n => not_readsOtherwise h⟩
  obtain ⟨w₂, r, hRun, hSteps, -⟩ := run_eq h o
  rw [hRun]
  have hPlain := hSteps.plain
  -- each manifest is one of those from before, under its last name
  have hOld : ∀ k ∈ manifestNames w₂ directory, ∃ n ∈ manifestNames w directory,
      ¬ o.Overwritten (w.folder l) (manifestNames w directory) n ∧
        o.lastName directory l w n = k := by
    intro k hk
    obtain ⟨entry, hEntry, -⟩ := isFile_of_mem_manifestNames hPlain hk
    rcases of_folder_run h o hSteps hEntry with ⟨hNo, -⟩ | ⟨-, hOld⟩
    · exact absurd hNo ((mem_manifestNames_iff hPlain hEntry).1 hk)
    · exact hOld
  have hSelf : ∀ k ∈ manifestNames w₂ directory, ∀ text, o.stored (w₂.folder l) k = .ok text →
      o.destination k = k := by
    intro k hk text hText
    obtain ⟨n, hn, hKept, rfl⟩ := hOld k hk
    rw [destination, daemonName?_lastName h hSteps hn hKept (hLate n hn hKept) hText,
      Option.getD_none]
  have hTaken : ∀ k ∈ manifestNames w₂ directory, '_' ∈ k.toList →
      w₂.folder l (dashed k) ≠ none := by
    intro k hk hName
    obtain ⟨n, hn, hKept, rfl⟩ := hOld k hk
    exact folder_dashed_lastName h o hn hKept hSteps.folder hName
  obtain ⟨hOutside, hEach⟩ := folder_run_of_self hPlain o hSelf hTaken
  refine ⟨hOutside, fun k => ?_, fun k hReads => ?_⟩
  · rw [hEach]
    split
    · rename_i hk
      have hThere := ne_none_of_mem_manifestNames hPlain k hk
      exact iff_of_false (reviseIn_self_ne_none hThere (hSelf k hk)) hThere
    · rfl
  · rw [hEach]
    split
    · rename_i hk
      obtain ⟨n, hn, hKept, rfl⟩ := hOld k hk
      rw [reviseIn_lastName h hSteps hn hKept (hLate n hn hKept) (hReads n hn hKept rfl)]
    · rfl

/-! ### Manifests of one kind -/

open Workspace (homeWith)

/-- A document that says nothing but its kind. -/
def kindDocument (kind : String) : Yaml := .fields [("kind", .str kind)]

theorem parseDocuments_deployment :
    parseDocuments "kind: Deployment\n" = .ok [kindDocument "Deployment"] := by
  decide +kernel

theorem parseDocuments_service :
    parseDocuments "kind: Service\n" = .ok [kindDocument "Service"] := by
  decide +kernel

theorem folder_mixedEntries (k : String) :
    (homeWith mixedEntries).folder ["home"] k = OrderedMap.find? mixedEntries k := by
  rw [Workspace.folder, Workspace.entries_homeWith]

theorem of_mem_manifestNames_mixedEntries (hn : n ∈ manifestNames (homeWith mixedEntries) ".") :
    n = "web-deployment.yaml" ∨ n = "a_b.yaml" ∨ n = "a-b.yaml" := by
  obtain ⟨-, bytes, executable, hFile⟩ := (mem_manifestNames plain_mixedEntries).1 hn
  rw [folder_mixedEntries] at hFile
  have hMem := OrderedMap.mem_of_find? hFile
  simp only [mixedEntries, List.mem_cons, Prod.mk.injEq, List.not_mem_nil, or_false] at hMem
  rcases hMem with ⟨hName, -⟩ | ⟨hName, -⟩ | ⟨hName, -⟩ | ⟨-, hDirectory⟩
  · exact .inl hName
  · exact .inr (.inl hName)
  · exact .inr (.inr hName)
  · simp at hDirectory

theorem not_late_mixedEntries (hn : n ∈ manifestNames (homeWith mixedEntries) ".") :
    ¬ webEverywhere.Late "." ["home"] (homeWith mixedEntries) n := by
  rintro ⟨hRenamed, hDaemon, -, -⟩
  have hMem := webEverywhere.lastName_mem "." ["home"] (homeWith mixedEntries) n
  have hNone : ∀ k ∈ [n, webEverywhere.destination n, dashed n,
      dashed (webEverywhere.destination n)], k ≠ n → webEverywhere.daemonName? k = none := by
    simp only [dashed_eq_ofList]
    rcases of_mem_manifestNames_mixedEntries hn with rfl | rfl | rfl
    · decide
    · decide
    · decide
  rw [hNone _ hMem hRenamed] at hDaemon
  exact absurd hDaemon (by simp)

theorem keepsTags_mixedEntries (hn : n ∈ manifestNames (homeWith mixedEntries) ".") :
    KeepsTags "." (homeWith mixedEntries) n := by
  have hKinds : ∀ kind, ∀ d ∈ [kindDocument kind], Yaml.tagsSatisfy Yaml.keepsTag d = true :=
    fun kind => List.forall_mem_singleton.2 rfl
  have hHere := folder_mixedEntries n
  intro text documents hRead hParse
  rcases of_mem_manifestNames_mixedEntries hn with rfl | rfl | rfl
  · rw [readText_of_file plain_mixedEntries hHere (Text.fromUTF8?_toUTF8 _)] at hRead
    rw [← Except.ok.inj hRead, parseDocuments_deployment] at hParse
    exact Except.ok.inj hParse ▸ hKinds _
  · rw [readText_of_file plain_mixedEntries hHere (Text.fromUTF8?_toUTF8 _)] at hRead
    rw [← Except.ok.inj hRead, parseDocuments_service] at hParse
    exact Except.ok.inj hParse ▸ hKinds _
  · have hNoText : String.fromUTF8? ⟨#[0xff]⟩ = none := by decide +kernel
    have hFolder : (homeWith mixedEntries).folder ["home"] "a-b.yaml" =
        some (.file ⟨#[0xff]⟩ true) := hHere
    rw [readText_child plain_mixedEntries (fits_manifestNames plain_mixedEntries _ hn),
      Folder.read, hFolder] at hRead
    simp [hNoText] at hRead

/-- A daemon set, a name that is taken and a file that is no text are left by a second run, and none
of them is read as other documents. -/
theorem unchanged_run_run_mixedEntries :
    Unchanged webEverywhere "." ["home"] (homeWith mixedEntries)
        (webEverywhere.run "." (homeWith mixedEntries)).1
        (webEverywhere.run "." (webEverywhere.run "." (homeWith mixedEntries)).1).1 ∧
      ∀ n ∈ manifestNames (homeWith mixedEntries) ".",
        ¬ webEverywhere.ReadsOtherwise "." ["home"] (homeWith mixedEntries) n := by
  obtain ⟨hUnchanged, hReads⟩ := unchanged_run_run plain_mixedEntries webEverywhere
    fun _ hn _ => not_late_mixedEntries hn
  exact ⟨hUnchanged, fun n hn => hReads n (keepsTags_mixedEntries hn)⟩

/-! ### Directories of one manifest -/

/-- A directory that holds a file with a text, and nothing else. -/
structure HoldsOnly (w : Workspace) (directory : String) (l : Location) (n text : String) :
    Prop where
  plain : w.Plain directory l
  folder : ∃ executable, ∀ k, w.folder l k =
    if k = n then some (.file text.toUTF8 executable) else none

theorem holdsOnly_homeWith {text : String} (hFits : Workspace.Fits "." n) :
    HoldsOnly (homeWith [(n, .file text.toUTF8 false)]) "." ["home"] n text where
  plain := Workspace.plain_homeWith (List.nodup_singleton _) (List.forall_mem_singleton.2 hFits)
    (List.forall_mem_singleton.2 fun _ => by simp)
  folder := ⟨false, fun k => by
    simp [Workspace.folder, Workspace.entries_homeWith, OrderedMap.find?_cons]⟩

/-- A manifest that is alone in a directory ends up under the name with dashes of its destination,
with the text of its revised document. -/
theorem HoldsOnly.run {text : String} {d d' : Yaml} (h : HoldsOnly w directory l n text)
    (hName : isManifestName (child directory n) = true)
    (hParse : parseDocuments text = .ok [d]) (hTransformed : o.transformed n [d] = [d'])
    (hWritable : Yaml.isWritable false d' = true) :
    HoldsOnly (o.run directory w).1 directory l (dashed (o.destination n)) d'.render := by
  obtain ⟨x, hFolder⟩ := h.folder
  have hHere := (hFolder n).trans (if_pos rfl)
  have hFree : w.folder l (o.destination n) ≠ some .directory := by
    rw [hFolder]
    split <;> simp
  have hStored := stored_of_document hHere (Text.fromUTF8?_toUTF8 _) hParse hTransformed hWritable
    hFree
  have hn : n ∈ manifestNames w directory := (mem_manifestNames h.plain).2 ⟨hName, _, _, hHere⟩
  have hAlone : ∀ k entry, w.folder l k = some entry → k = n := by
    intro k entry hEntry
    by_contra hNe
    rw [hFolder, if_neg hNe] at hEntry
    exact absurd hEntry (by simp)
  have hOne : ∀ m ∈ manifestNames w directory, m = n := by
    intro m hm
    obtain ⟨-, bytes, executable, hFile⟩ := (mem_manifestNames h.plain).1 hm
    exact hAlone m _ hFile
  have hKept : ¬ o.Overwritten (w.folder l) (manifestNames w directory) n := by
    rintro ⟨m, hm, hNe, -⟩
    exact hNe (hOne m hm)
  obtain ⟨w₂, r, hRun, hSteps, -⟩ := run_eq h.plain o
  rw [hRun]
  have hOnly : ∀ k entry, w₂.folder l k = some entry → o.lastName directory l w n = k := by
    intro k entry hEntry
    rcases of_folder_run h.plain o hSteps hEntry with ⟨hNo, hThere⟩ | ⟨-, m, hm, -, hLast⟩
    · exact absurd hNo ((mem_manifestNames_iff h.plain hThere).1 (hAlone k _ hThere ▸ hn))
    · rwa [hOne m hm] at hLast
  have hLast : o.lastName directory l w n = dashed (o.destination n) := by
    have hCases := o.lastName_cases directory l w n
    rw [middleName_of_ok hStored] at hCases
    refine hCases.elim (fun hSame => ?_) id
    by_cases hUnderscore : '_' ∈ (o.destination n).toList
    · -- the name with dashes would be taken by the file itself
      rw [← hSame] at hUnderscore
      obtain ⟨entry, hEntry⟩ := Option.ne_none_iff_exists'.1
        (folder_dashed_lastName h.plain o hn hKept hSteps.folder hUnderscore)
      rw [hOnly _ entry hEntry] at hUnderscore
      exact absurd hUnderscore (Revise.underscore_notMem_dashed _)
    · rw [hSame, Revise.dashed_eq_self hUnderscore]
  obtain ⟨bytes, executable, hMiddle, -, hBytes⟩ := exists_file_middleName h.plain o hn hKept
  have hFile := folder_lastName h.plain o hn hKept hSteps.folder
  rw [hMiddle, hBytes _ hStored, hLast] at hFile
  refine ⟨hSteps.plain, executable, fun k => ?_⟩
  split
  · rename_i hk
    rw [hk, hFile]
  · rename_i hk
    rw [Option.eq_none_iff_forall_ne_some]
    intro entry hEntry
    exact hk ((hOnly k entry hEntry).symm.trans hLast)

/-! ### A deployment that gets its name late -/

/-- A home with the file of a deployment that has an underscore before its ending. -/
def lateHome : Workspace :=
  homeWith [("web_deployment.yaml", .file "kind: Deployment\n".toUTF8 false)]

/-- A deployment that gets its name only in the second round of a run is made a daemon set by the
next one. -/
theorem daemonSet_of_lateHome :
    HoldsOnly (webEverywhere.run "." lateHome).1 "." ["home"] "web-deployment.yaml"
        (kindDocument "Deployment").render ∧
      HoldsOnly (webEverywhere.run "." (webEverywhere.run "." lateHome).1).1 "." ["home"]
        "web-daemonset.yaml" (Revise.toDaemonSet (kindDocument "Deployment")).render := by
  have hPlace : dashed (webEverywhere.destination "web_deployment.yaml") =
      "web-deployment.yaml" := by
    have hSame : webEverywhere.destination "web_deployment.yaml" = "web_deployment.yaml" := by
      decide
    rw [hSame, dashed_eq_ofList]
    decide
  have hDaemon : dashed (webEverywhere.destination "web-deployment.yaml") =
      "web-daemonset.yaml" := by
    have hDaemon : webEverywhere.destination "web-deployment.yaml" = "web-daemonset.yaml" := by
      decide
    rw [hDaemon, Revise.dashed_eq_self (by decide)]
  have hFirst : HoldsOnly lateHome "." ["home"] "web_deployment.yaml" "kind: Deployment\n" :=
    holdsOnly_homeWith (by decide)
  have hSecond := hFirst.run (o := webEverywhere) (by decide) parseDocuments_deployment rfl
    (by decide +kernel)
  rw [hPlace] at hSecond
  have hReads : (kindDocument "Deployment").ReadsBack := by decide +kernel
  have hThird := hSecond.run (o := webEverywhere) (by decide) hReads rfl (by decide +kernel)
  rw [hDaemon] at hThird
  exact ⟨hSecond, hThird⟩

/-! ### A tag that loses its marks -/

/-- A home with the manifest of a document whose tag begins with exclamation marks. -/
def markedHome : Workspace :=
  homeWith [("marked.yaml", .file "!%21%21%21%21x y\n".toUTF8 false)]

/-- The marks of a tag get fewer each time it is written and read, so that a second run leaves
another document than the first one. -/
theorem unmarked_of_markedHome :
    HoldsOnly (webEverywhere.run "." markedHome).1 "." ["home"] "marked.yaml" "!%21%21x y\n" ∧
      parseDocuments "!%21%21x y\n" = .ok [.tagged "!x" (.str "y")] ∧
      HoldsOnly (webEverywhere.run "." (webEverywhere.run "." markedHome).1).1 "." ["home"]
        "marked.yaml" "!x y\n" ∧
      parseDocuments "!x y\n" = .ok [.tagged "x" (.str "y")] := by
  have hPlace : dashed (webEverywhere.destination "marked.yaml") = "marked.yaml" := by
    have hSame : webEverywhere.destination "marked.yaml" = "marked.yaml" := by decide
    rw [hSame, Revise.dashed_eq_self (by decide)]
  have hParse : parseDocuments "!%21%21%21%21x y\n" = .ok [.tagged "!!!x" (.str "y")] ∧
      parseDocuments "!%21%21x y\n" = .ok [.tagged "!x" (.str "y")] ∧
      parseDocuments "!x y\n" = .ok [.tagged "x" (.str "y")] := by
    decide +kernel
  have hSame : ∀ tag, webEverywhere.transformed "marked.yaml" [.tagged tag (.str "y")] =
      [.tagged tag (.str "y")] := fun _ => rfl
  have hText : (Yaml.tagged "!!!x" (.str "y")).render = "!%21%21x y\n" ∧
      (Yaml.tagged "!x" (.str "y")).render = "!x y\n" := by decide +kernel
  have hFirst : HoldsOnly markedHome "." ["home"] "marked.yaml" "!%21%21%21%21x y\n" :=
    holdsOnly_homeWith (by decide)
  have hSecond := hFirst.run (o := webEverywhere) (by decide) hParse.1 (hSame _)
    (by decide +kernel)
  rw [hPlace, hText.1] at hSecond
  have hThird := hSecond.run (o := webEverywhere) (by decide) hParse.2.1 (hSame _)
    (by decide +kernel)
  rw [hPlace, hText.2] at hThird
  exact ⟨hSecond, hParse.2.1, hThird, hParse.2.2⟩

/-- A second run may make a daemon set, under a name that was not there before, and may leave
another document under a name. -/
theorem changed_run_run :
    ((webEverywhere.run "." lateHome).1.folder ["home"] "web-daemonset.yaml" = none ∧
      ∃ bytes executable,
        (webEverywhere.run "." (webEverywhere.run "." lateHome).1).1.folder ["home"]
          "web-daemonset.yaml" = some (.file bytes executable)) ∧
    ∃ before after executable executable',
      (webEverywhere.run "." markedHome).1.folder ["home"] "marked.yaml" =
        some (.file (String.toUTF8 before) executable) ∧
      parseDocuments before = .ok [.tagged "!x" (.str "y")] ∧
      (webEverywhere.run "." (webEverywhere.run "." markedHome).1).1.folder ["home"]
        "marked.yaml" = some (.file (String.toUTF8 after) executable') ∧
      parseDocuments after = .ok [.tagged "x" (.str "y")] := by
  obtain ⟨⟨-, x, hDeployment⟩, -, x', hDaemonSet⟩ := daemonSet_of_lateHome
  obtain ⟨⟨-, y, hBefore⟩, hMarked, ⟨-, y', hAfter⟩, hUnmarked⟩ := unmarked_of_markedHome
  refine ⟨⟨?_, _, x', (hDaemonSet _).trans (if_pos rfl)⟩, _, _, y, y',
    (hBefore _).trans (if_pos rfl), hMarked, (hAfter _).trans (if_pos rfl), hUnmarked⟩
  rw [hDeployment, if_neg (by decide)]

end Manifest.Revision

end KubeCompose
