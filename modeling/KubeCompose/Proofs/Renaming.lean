import KubeCompose.Proofs.Folder
import KubeCompose.Proofs.Selectors

/-!
# The second round of a revision

In the second round the files whose names hold underscores get names with dashes, one after the
other, unless the name is taken at that moment. A name that is taken stays taken, so no two files
end up under one name, and each is found with what it held under the name that it got.
-/

namespace KubeCompose

namespace Manifest.Revision

open Revise (dashed)

variable {f : Folder} {k m n name : String} {names before after : List String}

/-- The name that a file gets when its turn comes: one with dashes, when it has underscores and
that name is free. -/
def newName (f : Folder) (name : String) : String :=
  if name.toList.contains '_' && (f (dashed name)).isNone then dashed name else name

/-- A folder in which a file has got its name. -/
def renameIn (f : Folder) (name : String) : Folder :=
  Function.update (Function.update f name none) (newName f name) (f name)

/-- The name under which a file ends up when the files of a list get their names in order. -/
def finalName (f : Folder) (names : List String) (name : String) : String :=
  newName ((names.takeWhile (· != name)).foldl renameIn f) name

theorem newName_cases (f : Folder) (name : String) :
    newName f name = name ∨
      ('_' ∈ name.toList ∧ f (dashed name) = none ∧ newName f name = dashed name) := by
  rw [newName]
  split
  · rename_i h
    rw [Bool.and_eq_true, List.contains_iff_mem, Option.isNone_iff_eq_none] at h
    exact .inr ⟨h.1, h.2, rfl⟩
  · exact .inl rfl

/-- A file keeps a name with underscores only where the name with dashes is taken. -/
theorem taken_of_newName_eq_self (h : newName f name = name) (hName : '_' ∈ name.toList) :
    f (dashed name) ≠ none := by
  intro hFree
  have hNew : newName f name = dashed name := by
    rw [newName, if_pos]
    simp [hName, hFree]
  rw [hNew] at h
  exact Revise.underscore_notMem_dashed name (h.symm ▸ hName)

theorem renameIn_of_newName_eq_self (h : newName f name = name) : renameIn f name = f := by
  rw [renameIn, h, Function.update_idem, Function.update_eq_self]

/-- A file stays where it is until its turn, and always when its name has no underscores. -/
theorem renameIn_of_ne (h : f k ≠ none) (hName : k = name → '_' ∉ k.toList) :
    renameIn f name k = f k := by
  rcases newName_cases f name with hSame | ⟨hUnderscore, hFree, hNew⟩
  · rw [renameIn_of_newName_eq_self hSame]
  · have hTarget : k ≠ dashed name := by
      rintro rfl
      exact h hFree
    have hSource : k ≠ name := by
      rintro rfl
      exact hName rfl hUnderscore
    rw [renameIn, hNew, Function.update_of_ne hTarget, Function.update_of_ne hSource]

theorem foldl_renameIn_eq_self {names : List String} (h : ∀ n ∈ names, newName f n = n) :
    names.foldl renameIn f = f := by
  induction names with
  | nil => rfl
  | cons n names ih =>
    obtain ⟨hHead, hRest⟩ := List.forall_mem_cons.1 h
    rw [List.foldl_cons, renameIn_of_newName_eq_self hHead, ih hRest]

theorem foldl_renameIn_of_ne (h : f k ≠ none) (hNames : ∀ n ∈ names, k = n → '_' ∉ k.toList) :
    names.foldl renameIn f k = f k := by
  induction names generalizing f with
  | nil => rfl
  | cons n names ih =>
    obtain ⟨hHead, hRest⟩ := List.forall_mem_cons.1 hNames
    have hStep := renameIn_of_ne h hHead
    rw [List.foldl_cons, ih (by rwa [hStep]) hRest, hStep]

theorem takeWhile_eq (h : n ∉ before) :
    (before ++ n :: after).takeWhile (· != n) = before := by
  rw [List.takeWhile_append_of_pos fun m hm => ?_, List.takeWhile_cons_of_neg (by simp),
    List.append_nil]
  have hNe : m ≠ n := fun hEq => h (hEq ▸ hm)
  simpa using hNe

theorem finalName_eq (h : n ∉ before) :
    finalName f (before ++ n :: after) n = newName (before.foldl renameIn f) n := by
  rw [finalName, takeWhile_eq h]

/-- After its turn, a file is found under its new name. -/
theorem foldl_renameIn_newName (hAfter : n ∉ after)
    (hFiles : ∀ m ∈ n :: after, f m ≠ none) :
    (n :: after).foldl renameIn f (newName f n) = f n := by
  have hHere : renameIn f n (newName f n) = f n := by rw [renameIn, Function.update_self]
  rw [List.foldl_cons, foldl_renameIn_of_ne, hHere]
  · rw [hHere]
    exact hFiles n (List.mem_cons_self ..)
  · rintro m hm rfl
    rcases newName_cases f n with hSame | ⟨-, hFree, hNew⟩
    · rw [hSame] at hm
      exact absurd hm hAfter
    · rw [hNew]
      exact Revise.underscore_notMem_dashed n

section Round

variable (hDistinct : names.Nodup) (hFiles : ∀ n ∈ names, f n ≠ none)
include hDistinct hFiles

/-- When its turn comes, a file is where it was. -/
theorem moment_of_append (hNames : names = before ++ n :: after) :
    n ∉ before ∧ ∀ m ∈ n :: after, before.foldl renameIn f m = f m := by
  rw [hNames] at hDistinct hFiles
  obtain ⟨-, -, hApart⟩ := List.nodup_append.1 hDistinct
  have hNotMem : ∀ m ∈ n :: after, m ∉ before := fun m hm hBefore => hApart m hBefore m hm rfl
  refine ⟨hNotMem n (List.mem_cons_self ..), fun m hm => ?_⟩
  refine foldl_renameIn_of_ne (hFiles m (List.mem_append_right _ hm)) ?_
  rintro b hb rfl
  exact absurd hb (hNotMem m hm)

/-- Each file is found under the name that it got. -/
theorem foldl_renameIn_finalName (hn : n ∈ names) :
    names.foldl renameIn f (finalName f names n) = f n := by
  obtain ⟨before, after, hNames⟩ := List.append_of_mem hn
  obtain ⟨hBefore, hMoment⟩ := moment_of_append hDistinct hFiles hNames
  subst hNames
  obtain ⟨-, hRest, -⟩ := List.nodup_append.1 hDistinct
  rw [finalName_eq hBefore, List.foldl_append, foldl_renameIn_newName (List.nodup_cons.1 hRest).1,
    hMoment n (List.mem_cons_self ..)]
  intro m hm
  rw [hMoment m hm]
  exact hFiles m (List.mem_append_right _ hm)

/-- A file with underscores in its last name has a file with dashes beside it. -/
theorem taken_of_finalName_eq_self (hn : n ∈ names) (hName : '_' ∈ n.toList)
    (hSame : finalName f names n = n) : names.foldl renameIn f (dashed n) ≠ none := by
  obtain ⟨before, after, hNames⟩ := List.append_of_mem hn
  obtain ⟨hBefore, hMoment⟩ := moment_of_append hDistinct hFiles hNames
  subst hNames
  rw [finalName_eq hBefore] at hSame
  have hTaken := taken_of_newName_eq_self hSame hName
  rw [List.foldl_append, foldl_renameIn_of_ne hTaken]
  · exact hTaken
  · rintro m - -
    exact Revise.underscore_notMem_dashed n

end Round

/-- The name that a file gets does not depend on those that come later. -/
theorem finalName_append (hm : m ∈ before) :
    finalName f (before ++ after) m = finalName f before m := by
  obtain ⟨first, rest, rfl, hFirst⟩ := List.eq_append_cons_of_mem hm
  rw [List.append_assoc, List.cons_append, finalName_eq hFirst, finalName_eq hFirst]

theorem finalName_ne_of_append (hDistinct : (before ++ n :: after).Nodup)
    (hFiles : ∀ b ∈ before ++ n :: after, f b ≠ none) (hm : m ∈ before) :
    finalName f (before ++ n :: after) m ≠ finalName f (before ++ n :: after) n := by
  obtain ⟨hBefore, hMoment⟩ := moment_of_append hDistinct hFiles rfl
  have hPrefix := (List.nodup_append.1 hDistinct).1
  have hPrefixFiles : ∀ b ∈ before, f b ≠ none := fun b hb =>
    hFiles b (List.mem_append_left _ hb)
  have hThere := foldl_renameIn_finalName hPrefix hPrefixFiles hm
  rw [finalName_append hm, finalName_eq hBefore]
  intro hSame
  rcases newName_cases (before.foldl renameIn f) n with hStays | ⟨-, hFree, hNew⟩
  · -- the name of the second file was not free for the first one
    rw [hStays] at hSame
    obtain ⟨first, rest, rfl⟩ := List.append_of_mem hm
    obtain ⟨hFirst, -⟩ := moment_of_append hPrefix hPrefixFiles rfl
    rw [finalName_eq hFirst] at hSame
    rcases newName_cases (first.foldl renameIn f) m with hOld | ⟨-, hFree, hNew⟩
    · rw [hOld] at hSame
      exact hBefore (hSame ▸ hm)
    · rw [hNew] at hSame
      have hTaken : f n ≠ none := hFiles n (List.mem_append_right _ (List.mem_cons_self ..))
      rw [hSame, foldl_renameIn_of_ne hTaken] at hFree
      · exact hTaken hFree
      · rintro b hb rfl
        exact absurd (List.mem_append_left _ hb) hBefore
  · rw [hSame, hNew, hFree] at hThere
    exact hPrefixFiles m hm hThere.symm

section Round

variable (hDistinct : names.Nodup) (hFiles : ∀ n ∈ names, f n ≠ none)
include hDistinct hFiles

/-- No two files end up under one name. -/
theorem finalName_inj (hm : m ∈ names) (hn : n ∈ names)
    (h : finalName f names m = finalName f names n) : m = n := by
  obtain ⟨before, after, rfl⟩ := List.append_of_mem hn
  rcases List.mem_append.1 hm with hBefore | hAfter
  · exact absurd h (finalName_ne_of_append hDistinct hFiles hBefore)
  · rcases List.mem_cons.1 hAfter with rfl | hLater
    · rfl
    · obtain ⟨middle, rest, rfl⟩ := List.append_of_mem hLater
      have hSplit : before ++ n :: (middle ++ m :: rest) =
          (before ++ n :: middle) ++ m :: rest := by simp
      rw [hSplit] at h hDistinct hFiles
      have hFirst : n ∈ before ++ n :: middle := by simp
      exact absurd h.symm (finalName_ne_of_append hDistinct hFiles hFirst)

/-- What stands in the folder after the round was there before, or is a file under the name that it
got. -/
theorem of_foldl_renameIn {entry : Entry} (h : names.foldl renameIn f k = some entry) :
    (k ∉ names ∧ f k = some entry) ∨ ∃ n ∈ names, finalName f names n = k := by
  induction names using List.reverseRecOn with
  | nil => exact .inl ⟨List.not_mem_nil, h⟩
  | append_singleton names n ih =>
    obtain ⟨hBefore, -⟩ := moment_of_append hDistinct hFiles rfl
    rw [List.foldl_append, List.foldl_cons, List.foldl_nil, renameIn] at h
    by_cases hNew : k = newName (names.foldl renameIn f) n
    · exact .inr ⟨n, by simp, by rw [finalName_eq hBefore, hNew]⟩
    · rw [Function.update_of_ne hNew] at h
      by_cases hOld : k = n
      · rw [hOld, Function.update_self] at h
        simp at h
      · rw [Function.update_of_ne hOld] at h
        have hPrefix := (List.nodup_append.1 hDistinct).1
        rcases ih hPrefix (fun b hb => hFiles b (List.mem_append_left _ hb)) h with
          ⟨hNotMem, hEntry⟩ | ⟨m, hm, hFinal⟩
        · exact .inl ⟨by simp [hNotMem, hOld], hEntry⟩
        · exact .inr ⟨m, List.mem_append_left _ hm, by rw [finalName_append hm, hFinal]⟩

end Round

end Manifest.Revision

end KubeCompose
