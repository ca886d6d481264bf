import KubeCompose.Proofs.Workspace

/-!
# The skeleton of a file tree

The directories and the links of a tree are its skeleton. A path is followed over nothing else, so
where it leads is the same in all trees with this skeleton, whatever files stand in them.
-/

namespace KubeCompose

/-- Whether an entry is a file. -/
def Entry.IsFile (entry : Entry) : Prop := ∃ content executable, entry = .file content executable

namespace FileTree

variable {t t' : FileTree} {last : Bool} {links : Nat} {here l : Location} {ps : List String}
  {entry other : Entry}

/-- The directories and the links of a tree stand in another one, too. -/
def SkeletonIn (t t' : FileTree) : Prop :=
  ∀ l entry, t.look? l = some entry → ¬ entry.IsFile → t'.look? l = some entry

theorem SkeletonIn.refl (t : FileTree) : t.SkeletonIn t := fun _ _ h _ => h

theorem SkeletonIn.trans {t'' : FileTree} (h : t.SkeletonIn t') (h' : t'.SkeletonIn t'') :
    t.SkeletonIn t'' :=
  fun l entry hLook hNoFile => h' l entry (h l entry hLook hNoFile) hNoFile

theorem not_isFile_directory : ¬ Entry.directory.IsFile := by
  rintro ⟨content, executable, hEq⟩
  exact absurd hEq (by simp)

theorem not_isFile_link (target : String) : ¬ (Entry.link target).IsFile := by
  rintro ⟨content, executable, hEq⟩
  exact absurd hEq (by simp)

/-- A walk that finds an entry finds what stands there in any tree that has the skeleton, where only
a file may stand in for a file. -/
theorem walk_of_skeletonIn (hIn : t.SkeletonIn t')
    (h : t.walk last links here ps = .ok (.present l entry)) (hLook : t'.look? l = some other)
    (hFile : entry.IsFile → other.IsFile) :
    t'.walk last links here ps = .ok (.present l other) := by
  fun_induction walk t last links here ps with
  | case1 links here e hHere =>
    simp only [Except.ok.injEq, Place.present.injEq] at h
    rw [walk, h.1, hLook]
  | case3 links here piece rest hHere hIdle ih =>
    rw [walk, hIn _ _ hHere not_isFile_directory]
    simpa only [hIdle, if_true] using ih h
  | case4 links here rest hHere hIdle ih =>
    rw [walk, hIn _ _ hHere not_isFile_directory]
    simpa [Path.isIdle] using ih h
  | case8 links here piece rest hHere hIdle hUp hShort next target hNext hEnd =>
    -- the walk ends at a link that it does not follow
    simp only [Except.ok.injEq, Place.present.injEq] at h
    obtain ⟨rfl, rfl⟩ := h
    have hOther := hIn _ _ hNext (not_isFile_link target)
    rw [hLook, Option.some.injEq] at hOther
    rw [walk, hIn _ _ hHere not_isFile_directory]
    have hNext' : t'.look? (here ++ [piece]) = some (.link target) := by rw [hLook, hOther]
    simp only [hIdle, hUp, hShort, hNext', hEnd, hOther, if_true, if_false, Bool.false_eq_true]
    rfl
  | case10 here piece rest hHere hIdle hUp hShort next target hNext hEnd n start ih =>
    have hNext' : t'.look? (here ++ [piece]) = some (.link target) :=
      hIn _ _ hNext (not_isFile_link target)
    rw [walk, hIn _ _ hHere not_isFile_directory]
    simp only [hIdle, hUp, hShort, hNext', hEnd, if_false, Bool.false_eq_true]
    exact ih h
  | case11 links here piece rest hHere hIdle hUp hShort next e hLink hNext ih =>
    have hNext' : ∃ e', t'.look? (here ++ [piece]) = some e' ∧ ∀ target, e' ≠ .link target := by
      by_cases hFound : e.IsFile
      · -- nothing is behind a file, so it is what was to be found
        obtain ⟨content, executable, rfl⟩ := hFound
        cases rest with
        | nil =>
          rw [walk, hNext] at h
          simp only [Except.ok.injEq, Place.present.injEq] at h
          obtain ⟨rfl, rfl⟩ := h
          obtain ⟨content', executable', rfl⟩ := hFile ⟨_, _, rfl⟩
          exact ⟨_, hLook, by simp⟩
        | cons p ps =>
          rw [walk, hNext] at h
          simp at h
      · refine ⟨e, hIn _ _ hNext hFound, ?_⟩
        rintro target rfl
        exact hLink target rfl
    obtain ⟨e', hThere, hNoLink⟩ := hNext'
    rw [walk, hIn _ _ hHere not_isFile_directory]
    simp only [hIdle, hUp, hShort, hThere, if_false, Bool.false_eq_true]
    exact ih h
  | _ => simp at h

/-- A file may be put where no directory and no link stands. -/
theorem skeletonIn_put (h : ∀ e, t.look? l = some e → e.IsFile) (entry : Entry) :
    t.SkeletonIn (t.put l entry) := by
  intro k e hLook hNoFile
  rw [look?_put]
  split
  · rename_i hRoot
    rw [hRoot] at hLook
    exact hLook
  · split
    · rename_i hSame
      rw [hSame] at hLook
      exact absurd (h e hLook) hNoFile
    · exact hLook

/-- A file that is put makes no directory and no link. -/
theorem put_skeletonIn (t : FileTree) (l : Location) (h : entry.IsFile) :
    (t.put l entry).SkeletonIn t := by
  intro k e hLook hNoFile
  rw [look?_put] at hLook
  split at hLook
  · rename_i hRoot
    rw [hRoot]
    exact hLook
  · split at hLook
    · rw [Option.some.injEq] at hLook
      rw [hLook] at h
      exact absurd h hNoFile
    · exact hLook

theorem skeletonIn_remove (h : ∀ e, t.look? l = some e → e.IsFile) :
    t.SkeletonIn (t.remove l) := by
  intro k e hLook hNoFile
  rw [look?_remove]
  split
  · rename_i hRoot
    rw [hRoot] at hLook
    exact hLook
  · split
    · rename_i hSame
      rw [hSame] at hLook
      exact absurd (h e hLook) hNoFile
    · exact hLook

theorem remove_skeletonIn (t : FileTree) (l : Location) : (t.remove l).SkeletonIn t := by
  intro k e hLook _
  rw [look?_remove] at hLook
  split at hLook
  · rename_i hRoot
    rw [hRoot]
    exact hLook
  · split at hLook
    · simp at hLook
    · exact hLook

end FileTree

namespace Workspace

variable {w v : Workspace} {directory path : String} {l : Location} {last : Bool}
  {entry other : Entry}

/-- Where a path leads is known from the skeleton. -/
theorem place_of_skeletonIn (hHere : v.here = w.here) (hIn : w.files.SkeletonIn v.files)
    (h : w.place path last = .ok (.present l entry)) (hLook : v.files.look? l = some other)
    (hFile : entry.IsFile → other.IsFile) : v.place path last = .ok (.present l other) := by
  obtain ⟨hNul, hNonempty, hShort, hWalk⟩ := place_eq_ok_iff.1 h
  refine place_eq_ok_iff.2 ⟨hNul, hNonempty, hShort, ?_⟩
  rw [start, hHere]
  exact FileTree.walk_of_skeletonIn hIn hWalk hLook hFile

theorem LeadsTo.of_skeletonIn (h : w.LeadsTo directory l) (hHere : v.here = w.here)
    (hIn : w.files.SkeletonIn v.files) : v.LeadsTo directory l :=
  place_of_skeletonIn hHere hIn h
    (hIn l .directory (look?_of_place h) FileTree.not_isFile_directory)
    fun hFile => absurd hFile FileTree.not_isFile_directory

end Workspace

end KubeCompose
