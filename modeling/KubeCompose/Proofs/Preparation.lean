import KubeCompose.Conversion
import KubeCompose.Proofs.Workspace

/-!
# Making directories

A directory that is there stays as it is when it is made again. One that is not there is made after
those above it, and is empty, unless its path leads back out of a directory that is made on the way.
-/

namespace KubeCompose

open FileTree (Way Grounded)
open KubeCompose.Path (isIdle pieces parent? isAbsolute)
open Text (dropTrailing join)

variable {w v : Workspace} {path directory above : String} {l : Location}

/-! ### Paths without their end slashes -/

namespace Path

theorem pieces_append_slashes {slashes : List Char} (h : ∀ c ∈ slashes, c = '/') (cs : List Char) :
    ∃ tail, pieces (String.ofList (cs ++ slashes)) = pieces (String.ofList cs) ++ tail ∧
      ∀ p ∈ tail, isIdle p = true := by
  induction slashes generalizing cs with
  | nil => exact ⟨[], by simp, by simp⟩
  | cons c slashes ih =>
    obtain ⟨hc, hRest⟩ := List.forall_mem_cons.1 h
    subst hc
    obtain ⟨tail, hTail, hIdle⟩ := ih hRest []
    refine ⟨pieces (String.ofList ([] ++ slashes)), ?_, ?_⟩
    · simp only [pieces, String.toList_ofList, Text.splitOn_append_sep, List.map_append,
        List.nil_append]
    · rw [hTail]
      refine List.forall_mem_append.2 ⟨?_, hIdle⟩
      simp [pieces, Text.splitOn, isIdle]

/-- Without its end slashes a path lacks nothing but slashes. -/
theorem eq_withoutEndSlashes_append (path : String) :
    ∃ slashes : List Char, path = String.ofList ((withoutEndSlashes path).toList ++ slashes) ∧
      ∀ c ∈ slashes, c = '/' := by
  obtain ⟨slashes, hSlashes, hAll⟩ := Text.exists_append_dropTrailing (· == '/') path.toList
  rw [withoutEndSlashes]
  split
  · exact ⟨[], by simp, by simp⟩
  · refine ⟨slashes, ?_, fun c hc => by simpa using hAll c hc⟩
    rw [String.toList_ofList, ← hSlashes, String.ofList_toList]

theorem pieces_withoutEndSlashes (path : String) :
    ∃ tail, pieces path = pieces (withoutEndSlashes path) ++ tail ∧
      ∀ p ∈ tail, isIdle p = true := by
  obtain ⟨slashes, hPath, hAll⟩ := eq_withoutEndSlashes_append path
  obtain ⟨tail, hTail, hIdle⟩ := pieces_append_slashes hAll (withoutEndSlashes path).toList
  rw [← hPath, String.ofList_toList] at hTail
  exact ⟨tail, hTail, hIdle⟩

theorem withoutEndSlashes_ne_empty (h : path ≠ "") : withoutEndSlashes path ≠ "" := by
  rw [withoutEndSlashes]
  split
  · exact h
  · rename_i cs hNonempty
    intro hEmpty
    exact hNonempty (String.ofList_inj.1 hEmpty)

theorem isAbsolute_withoutEndSlashes (h : path ≠ "") :
    isAbsolute (withoutEndSlashes path) = isAbsolute path := by
  obtain ⟨slashes, hPath, -⟩ := eq_withoutEndSlashes_append path
  conv_rhs => rw [hPath, String.ofList_append, String.ofList_toList]
  exact (isAbsolute_append (withoutEndSlashes_ne_empty h) _).symm

/-! ### Paths above a path -/

/-- A path stands above another one that goes on with pieces of which one is a name. -/
structure Above (above path : String) : Prop where
  start : isAbsolute above = isAbsolute path
  rest : ∃ more, pieces path = pieces above ++ more ∧ ∃ name ∈ more, isIdle name = false

theorem Above.trans {top : String} (h : Above top above) (h' : Above above path) :
    Above top path := by
  obtain ⟨more, hMore, name, hName, hIdle⟩ := h.rest
  obtain ⟨others, hOthers, -⟩ := h'.rest
  refine ⟨h.start.trans h'.start, more ++ others, ?_, name, List.mem_append_left _ hName, hIdle⟩
  rw [hOthers, hMore, List.append_assoc]

/-- The directory that holds a path stands above it, when it is one that may have to be made. -/
theorem above_parent (hAbove : parent? path = some above) (hNonempty : above ≠ "")
    (hRoot : parent? above ≠ none) : Above above path := by
  obtain ⟨first, rest, tail, hPieces, hSignificant, -, hLast⟩ := exists_significant path
  rw [parent?, hSignificant] at hAbove
  simp only at hAbove
  split at hAbove
  · -- the first piece has nothing above it but the place where one stands
    split at hAbove
    · simp at hAbove
    · exact absurd (Option.some.inj hAbove).symm hNonempty
  · rename_i hSome
    obtain ⟨front, name, rfl⟩ :=
      (List.eq_nil_or_concat' rest).resolve_left (by simpa using hSome)
    have hName : isIdle name = false := hLast name List.getLast?_concat
    obtain ⟨between, hBetween, -⟩ := Text.exists_append_dropTrailing isIdle front
    rw [List.dropLast_concat] at hAbove
    generalize dropTrailing isIdle front = up at hAbove hBetween
    have hPath : pieces path = (first :: up) ++ (between ++ [name] ++ tail) := by
      rw [hPieces, hBetween]
      simp
    split at hAbove
    · obtain rfl := Option.some.inj hAbove
      exact absurd (by decide) hRoot
    · have hJoined : pieces above = first :: up := by
        rw [← Option.some.inj hAbove]
        refine pieces_join (List.cons_ne_nil _ _) fun p hp => ?_
        have hMem : p ∈ pieces path := by
          rw [hPath]
          exact List.mem_append_left _ hp
        exact (of_mem_pieces hMem).1
      rw [← hJoined] at hPath
      exact ⟨isAbsolute_of_pieces hPath (by simp) hNonempty, _, hPath, name, by simp, hName⟩

/-- The paths that may have to be made before a path stand above it. -/
theorem above_of_mem_ancestors {n : Nat} {p : String} (hAbove : parent? path = some above)
    (h : p ∈ Workspace.ancestors.go n above) : Above p path := by
  induction n generalizing path above with
  | zero => simp [Workspace.ancestors.go] at h
  | succ n ih =>
    rw [Workspace.ancestors.go] at h
    split at h
    · simp at h
    · rename_i top hTop
      split at h
      · simp at h
      · rename_i hNonempty
        have hParent := above_parent hAbove hNonempty (by simp [hTop])
        rcases List.mem_cons.1 h with rfl | hMem
        · exact hParent
        · exact (ih hTop hMem).trans hParent

end Path

namespace Workspace

/-! ### Directories that are there -/

/-- What a path leads to is there without its end slashes, too, although it may be a link then. -/
theorem present_withoutEndSlashes (h : w.LeadsTo path l) :
    ∃ k entry, w.place (Path.withoutEndSlashes path) false = .ok (.present k entry) := by
  obtain ⟨hNul, hNonempty, hShort, hWay⟩ := leadsTo_iff.1 h
  obtain ⟨slashes, hPath, -⟩ := Path.eq_withoutEndSlashes_append path
  obtain ⟨tail, hTail, hIdle⟩ := Path.pieces_withoutEndSlashes path
  rw [hTail] at hWay
  obtain ⟨k, entry, hWalk⟩ := (hWay.of_append_idle hIdle).walk_present
  refine ⟨k, entry, place_eq_ok_iff.2 ⟨fun hMem => hNul ?_,
    Path.withoutEndSlashes_ne_empty hNonempty, Nat.le_trans ?_ hShort, ?_⟩⟩
  · rw [hPath, String.toList_ofList]
    exact List.mem_append_left _ hMem
  · conv_rhs => rw [hPath, String.ofList_append, String.ofList_toList, String.utf8ByteSize_append]
    exact Nat.le_add_right _ _
  · rw [start, Path.isAbsolute_withoutEndSlashes hNonempty]
    exact hWalk

/-- A path that the system takes is made without its end slashes. -/
theorem makeDirectory_eq (hNul : '\x00' ∉ path.toList)
    (hShort : path.utf8ByteSize ≤ Path.lengthLimit) :
    w.makeDirectory path =
      match w.place (Path.withoutEndSlashes path) false with
      | .ok (.absent l) => .ok (w.put l .directory)
      | .ok (.present _ _) => .error .alreadyExists
      | .error e => .error e := by
  exact (if_neg (by simpa using hNul)).trans (if_neg (Nat.not_lt.2 hShort))

/-- A directory is made at a free place. -/
theorem of_makeDirectory_eq_ok (h : w.makeDirectory path = .ok v) :
    path.utf8ByteSize ≤ Path.lengthLimit ∧
      ∃ l, w.place (Path.withoutEndSlashes path) false = .ok (.absent l) ∧
        v = w.put l .directory := by
  have hNul : '\x00' ∉ path.toList := by
    intro hMem
    rw [makeDirectory, if_pos (by simpa using hMem)] at h
    simp at h
  have hShort : path.utf8ByteSize ≤ Path.lengthLimit := by
    by_contra hLong
    rw [makeDirectory, if_neg (by simpa using hNul), if_pos (Nat.not_le.1 hLong)] at h
    simp at h
  rw [makeDirectory_eq hNul hShort] at h
  refine ⟨hShort, ?_⟩
  split at h
  · rename_i l hPlace
    exact ⟨l, hPlace, (Except.ok.inj h).symm⟩
  · simp at h
  · simp at h

/-- A directory that is there stays as it is. -/
theorem ensureDirectory_of_leadsTo (h : w.LeadsTo path l) :
    ensureDirectory path w = (.ok (), w) := by
  obtain ⟨hNul, -, hShort, -⟩ := leadsTo_iff.1 h
  obtain ⟨k, entry, hPlace⟩ := present_withoutEndSlashes h
  have hMake : w.makeDirectory path = .error .alreadyExists := by
    rw [makeDirectory_eq hNul hShort, hPlace]
  rw [ensureDirectory, Action.change, hMake]
  simp [isDirectory_of_leadsTo h]

theorem of_place_eq_notFound {last : Bool} (h : w.place path last = .error .notFound) :
    '\x00' ∉ path.toList ∧ path.utf8ByteSize ≤ Path.lengthLimit := by
  rw [place] at h
  split at h
  · simp at h
  · rename_i hNul
    refine ⟨by simpa using hNul, ?_⟩
    split at h
    · rename_i hEmpty
      exact hEmpty ▸ Nat.zero_le _
    · split at h
      · simp at h
      · rename_i hShort
        exact Nat.not_lt.1 hShort

/-- A directory is made where nothing stands. -/
theorem ensureDirectory_of_absent (hSlash : Path.endsInSlash path = false)
    (hPlace : w.place path false = .ok (.absent l)) :
    ensureDirectory path w = (.ok (), w.put l .directory) := by
  obtain ⟨hNul, -, hShort, -⟩ := place_eq_ok_iff.1 hPlace
  rw [ensureDirectory, Action.change, makeDirectory_eq hNul hShort,
    withoutEndSlashes_eq_self hSlash, hPlace]

theorem ensureDirectory_of_notFound (hSlash : Path.endsInSlash path = false)
    (hPlace : w.place path false = .error .notFound) :
    ensureDirectory path w = (.error .notFound, w) := by
  obtain ⟨hNul, hShort⟩ := of_place_eq_notFound hPlace
  rw [ensureDirectory, Action.change, makeDirectory_eq hNul hShort,
    withoutEndSlashes_eq_self hSlash, hPlace]

section Missing

variable {missing paths : List String}

theorem makeMissing_of_ok (h : ensureDirectory path w = (.ok (), v)) :
    makeMissing missing (path :: paths) w =
      (missing.forM ensureDirectory : Action FileError Unit) v := by
  simp only [makeMissing, h]

theorem makeMissing_of_notFound (h : ensureDirectory path w = (.error .notFound, v)) :
    makeMissing missing (path :: paths) w = makeMissing (path :: missing) paths v := by
  simp only [makeMissing, h]

end Missing

/-- The preparation of a directory makes it and those above it. -/
theorem prepareDirectory_eq (h : (w.exists? directory && !w.isDirectory directory) = false) :
    prepareDirectory directory w =
      ((makeDirectories directory w).1.mapError .file, (makeDirectories directory w).2) := by
  rw [prepareDirectory, if_neg (by simp [h])]
  rfl

theorem prepareDirectory_of_isDirectory (h : w.isDirectory directory = true) :
    prepareDirectory directory w = (.ok (), w) := by
  obtain ⟨l, hLeads⟩ := exists_leadsTo h
  have hMake : makeDirectories directory w = (.ok (), w) := by
    rw [makeDirectories, ancestors]
    cases directory.length with
    | zero => rfl
    | succ n =>
      rw [ancestors.go]
      split
      · rfl
      · split
        · rfl
        · rw [makeMissing_of_ok (ensureDirectory_of_leadsTo hLeads)]
          rfl
  rw [prepareDirectory_eq (by rw [h, Bool.not_true, Bool.and_false]), hMake]
  rfl

/-! ### Directories that are made -/

section Made

variable {entry : Entry} (hNone : w.files.look? l = none)
include hNone

/-- What is put where nothing stood leaves all else there. -/
theorem look?_put_new {k : Location} {old : Entry} (h : w.files.look? k = some old) :
    (w.put l entry).files.look? k = some old := by
  rw [put, FileTree.look?_put]
  split
  · rename_i hRoot
    rw [← h, hRoot]
    rfl
  · rw [if_neg, h]
    rintro rfl
    simp [hNone] at h

theorem look?_put_self : (w.put l entry).files.look? l = some entry := by
  rw [put, FileTree.look?_put, if_neg, if_pos rfl]
  rintro rfl
  simp [FileTree.look?] at hNone

end Made

/-- A directory that is made stands where nothing stood, and its path leads to it. -/
theorem of_makeDirectory (h : w.makeDirectory path = .ok v) :
    ∃ k name, v = w.put (k ++ [name]) .directory ∧ w.files.look? (k ++ [name]) = none ∧
      w.files.look? k = some .directory ∧ v.LeadsTo path (k ++ [name]) := by
  obtain ⟨hShort, l, hPlace, rfl⟩ := of_makeDirectory_eq_ok h
  obtain ⟨hNul, hNonempty, -, hWalk⟩ := place_eq_ok_iff.1 hPlace
  have hPath : path ≠ "" := by
    rintro rfl
    exact hNonempty rfl
  obtain ⟨hNone, k, name, rfl, hParent⟩ := FileTree.look?_of_walk_absent hWalk
  have hMade : (w.put (k ++ [name]) .directory).files.look? (k ++ [name]) = some .directory :=
    look?_put_self hNone
  have hWay := FileTree.way_of_walk_absent hWalk (fun _ _ => look?_put_new hNone) hMade
  obtain ⟨slashes, hSlashes, hAll⟩ := Path.eq_withoutEndSlashes_append path
  obtain ⟨tail, hTail, hIdle⟩ := Path.pieces_withoutEndSlashes path
  refine ⟨k, name, rfl, hNone, hParent, leadsTo_iff.2 ⟨fun hMem => ?_, hPath, hShort, ?_⟩⟩
  · rw [hSlashes, String.toList_ofList, List.mem_append] at hMem
    rcases hMem with hMem | hMem
    · exact hNul hMem
    · exact absurd (hAll _ hMem) (by decide)
  · rw [hTail, start, ← Path.isAbsolute_withoutEndSlashes hPath]
    exact hWay.append_idle hIdle

/-- A directory is made when nothing was there, and stays as it is otherwise. -/
theorem of_ensureDirectory (h : ensureDirectory path w = (.ok (), v)) :
    w.makeDirectory path = .ok v ∨ w.isDirectory path = true ∧ v = w := by
  rw [ensureDirectory, Action.change] at h
  cases hMake : w.makeDirectory path with
  | ok u =>
    rw [hMake] at h
    exact .inl (by rw [(Prod.mk.inj h).2])
  | error e =>
    rw [hMake] at h
    cases e with
    | alreadyExists =>
      by_cases hThere : w.isDirectory path = true
      · simp only [hThere, if_true] at h
        exact .inr ⟨hThere, (Prod.mk.inj h).2.symm⟩
      · simp only [hThere, Bool.false_eq_true, if_false] at h
        exact absurd (Prod.mk.inj h).1 (by simp)
    | _ => exact absurd (Prod.mk.inj h).1 (by simp)

theorem isDirectory_of_ensureDirectory (h : ensureDirectory path w = (.ok (), v)) :
    v.isDirectory path = true := by
  rcases of_ensureDirectory h with hMake | ⟨hThere, rfl⟩
  · obtain ⟨k, name, -, -, -, hLeads⟩ := of_makeDirectory hMake
    exact isDirectory_of_leadsTo hLeads
  · exact hThere

theorem eq_of_ensureDirectory_error {e : FileError} (h : ensureDirectory path w = (.error e, v)) :
    v = w := by
  rw [ensureDirectory, Action.change] at h
  split at h
  · exact absurd (Prod.mk.inj h).1 (by simp)
  · exact (Prod.mk.inj h).2.symm

/-! ### Directories above a directory -/

/-- To make missing directories is to make them after some of those above them. -/
theorem exists_forM_of_makeMissing {missing paths : List String}
    (h : makeMissing missing paths w = (.ok (), v)) :
    ∃ tried, (∀ p ∈ tried, p ∈ paths) ∧
      ((tried ++ missing).forM ensureDirectory : Action FileError Unit) w = (.ok (), v) := by
  induction paths generalizing missing with
  | nil => exact ⟨[], List.forall_mem_nil _, h⟩
  | cons p paths ih =>
    rcases hEnsure : ensureDirectory p w with ⟨e | ⟨⟩, u⟩
    · obtain rfl := eq_of_ensureDirectory_error hEnsure
      cases e with
      | notFound =>
        rw [makeMissing_of_notFound hEnsure] at h
        obtain ⟨tried, hTried, hForM⟩ := ih h
        refine ⟨tried ++ [p], List.forall_mem_append.2 ⟨?_, by simp⟩, ?_⟩
        · exact fun q hq => List.mem_cons_of_mem p (hTried q hq)
        · rw [List.append_assoc, List.singleton_append, hForM]
      | _ =>
        simp only [makeMissing, hEnsure] at h
        exact absurd (Prod.mk.inj h).1 (by simp)
    · rw [makeMissing_of_ok hEnsure] at h
      refine ⟨[p], by simp, ?_⟩
      rw [List.singleton_append, List.forM, Action.bind_of_ok hEnsure, h]

/-- A directory that has anything above it is made last, after some of the paths above it. -/
theorem exists_forM_of_makeDirectories {top : String} (hAbove : parent? directory = some top)
    (hNonempty : directory ≠ "") (h : makeDirectories directory w = (.ok (), v)) :
    ∃ tried, (∀ p ∈ tried, Path.Above p directory) ∧
      ((tried ++ [directory]).forM ensureDirectory : Action FileError Unit) w = (.ok (), v) := by
  obtain ⟨n, hLength⟩ : ∃ n, directory.length = n + 1 := by
    refine Nat.exists_eq_succ_of_ne_zero fun hZero => hNonempty ?_
    exact String.length_eq_zero_iff.1 hZero
  rw [makeDirectories, ancestors, hLength, ancestors.go] at h
  simp only [hAbove, hNonempty, if_false] at h
  rcases hEnsure : ensureDirectory directory w with ⟨e | ⟨⟩, u⟩
  · obtain rfl := eq_of_ensureDirectory_error hEnsure
    cases e with
    | notFound =>
      rw [makeMissing_of_notFound hEnsure] at h
      obtain ⟨tried, hTried, hForM⟩ := exists_forM_of_makeMissing h
      exact ⟨tried, fun p hp => Path.above_of_mem_ancestors hAbove (hTried p hp), hForM⟩
    | _ =>
      simp only [makeMissing, hEnsure] at h
      exact absurd (Prod.mk.inj h).1 (by simp)
  · rw [makeMissing_of_ok hEnsure] at h
    refine ⟨[], List.forall_mem_nil _, ?_⟩
    rw [List.nil_append, List.forM, Action.bind_of_ok hEnsure]
    exact h

theorem isDirectory_of_forM {tried : List String}
    (h : ((tried ++ [directory]).forM ensureDirectory : Action FileError Unit) w = (.ok (), v)) :
    v.isDirectory directory = true := by
  induction tried generalizing w with
  | nil =>
    rw [List.nil_append, List.forM] at h
    obtain ⟨_, u, hEnsure, hRest⟩ := Action.of_bind_eq_ok h
    obtain rfl : u = v := (Prod.mk.inj hRest).2
    exact isDirectory_of_ensureDirectory hEnsure
  | cons p tried ih =>
    rw [List.cons_append, List.forM] at h
    obtain ⟨_, u, -, hRest⟩ := Action.of_bind_eq_ok h
    exact ih hRest

/-! ### A directory that was not there -/

theorem grounded_put {k : Location} {name : String} (h : w.files.Grounded)
    (hNone : w.files.look? (k ++ [name]) = none) (hParent : w.files.look? k = some .directory) :
    (w.put (k ++ [name]) .directory).files.Grounded := by
  intro l other entry hLook
  by_cases hEq : l ++ [other] = k ++ [name]
  · rw [(List.append_inj' hEq rfl).1]
    exact look?_put_new hNone hParent
  · rw [put, FileTree.look?_put, if_neg (by simp), if_neg hEq] at hLook
    exact look?_put_new hNone (h l other entry hLook)

/-- A directory that is made has no entries. -/
theorem list_of_makeDirectory (hTree : w.files.Grounded) (h : w.makeDirectory path = .ok v) :
    v.list path = [] := by
  obtain ⟨k, name, rfl, hNone, -, hLeads⟩ := of_makeDirectory h
  refine List.perm_nil.1 ((list_of_leadsTo hLeads).trans ?_)
  rw [entries, put, FileTree.children_put_other, hTree.children_eq_nil hNone]
  intro other hEq
  have hLength := congrArg List.length hEq
  simp at hLength

/-- A path that goes on from a directory that is made leads nowhere yet, unless it leads back. -/
theorem absent_of_above {top : String} (hTree : w.files.Grounded)
    (hMake : w.makeDirectory top = .ok v)
    (hAbove : Path.Above top directory) (hUp : ".." ∉ pieces directory) :
    v.isDirectory directory = false := by
  obtain ⟨k, name, rfl, hNone, hParent, hLeads⟩ := of_makeDirectory hMake
  by_contra hThere
  rw [Bool.not_eq_false] at hThere
  obtain ⟨l, hDirectory⟩ := exists_leadsTo hThere
  obtain ⟨-, -, -, hTop⟩ := leadsTo_iff.1 hLeads
  obtain ⟨-, -, -, hWay⟩ := leadsTo_iff.1 hDirectory
  obtain ⟨more, hMore, hName⟩ := hAbove.rest
  rw [hMore] at hWay
  obtain ⟨j, entry, n, hFirst, hRest⟩ := hWay.split
  rw [start, ← hAbove.start] at hFirst
  have hSame := hFirst.walk_eq.symm.trans hTop.walk_eq
  simp only [Except.ok.injEq, Place.present.injEq] at hSame
  obtain ⟨rfl, -⟩ := hSame
  refine FileTree.not_way_of_empty (fun other => ?_) (fun hMem => hUp ?_) hName hRest
  · rw [FileTree.look?_child, put, FileTree.children_put_other, hTree.children_eq_nil hNone]
    · rfl
    · intro last hEq
      have hLength := congrArg List.length hEq
      simp at hLength
  · rw [hMore]
    exact List.mem_append_right _ hMem

section Absent

variable (hUp : ".." ∉ pieces directory)
include hUp

/-- What stands above a directory that is not there is made without it. -/
theorem absent_of_ensureDirectory {top : String} (hTree : w.files.Grounded)
    (hAbsent : w.isDirectory directory = false) (hAbove : Path.Above top directory)
    (h : ensureDirectory top w = (.ok (), v)) :
    v.files.Grounded ∧ v.isDirectory directory = false := by
  rcases of_ensureDirectory h with hMake | ⟨-, rfl⟩
  · refine ⟨?_, absent_of_above hTree hMake hAbove hUp⟩
    obtain ⟨k, name, rfl, hNone, hParent, -⟩ := of_makeDirectory hMake
    exact grounded_put hTree hNone hParent
  · exact ⟨hTree, hAbsent⟩

/-- A directory that was not there is made last, and is empty. -/
theorem list_of_forM {tried : List String} (hTree : w.files.Grounded)
    (hAbsent : w.isDirectory directory = false) (hTried : ∀ p ∈ tried, Path.Above p directory)
    (h : ((tried ++ [directory]).forM ensureDirectory : Action FileError Unit) w = (.ok (), v)) :
    v.list directory = [] := by
  induction tried generalizing w with
  | nil =>
    rw [List.nil_append, List.forM] at h
    obtain ⟨_, u, hEnsure, hRest⟩ := Action.of_bind_eq_ok h
    obtain rfl : u = v := (Prod.mk.inj hRest).2
    rcases of_ensureDirectory hEnsure with hMake | ⟨hThere, -⟩
    · exact list_of_makeDirectory hTree hMake
    · simp [hAbsent] at hThere
  | cons p tried ih =>
    obtain ⟨hTop, hOthers⟩ := List.forall_mem_cons.1 hTried
    rw [List.cons_append, List.forM] at h
    obtain ⟨_, u, hEnsure, hRest⟩ := Action.of_bind_eq_ok h
    obtain ⟨hGrounded, hStill⟩ := absent_of_ensureDirectory hUp hTree hAbsent hTop hEnsure
    exact ih hGrounded hStill hOthers hRest

end Absent

/-- Where a path has nothing above it, it is the root. -/
theorem isDirectory_of_parent?_eq_none (h : parent? directory = none) (hNonempty : directory ≠ "")
    (hShort : directory.utf8ByteSize ≤ Path.lengthLimit) : w.isDirectory directory = true := by
  obtain ⟨first, rest, tail, hPieces, hSignificant, hTail, -⟩ := Path.exists_significant directory
  rw [parent?, hSignificant] at h
  simp only at h
  split at h
  · rename_i hNoRest
    obtain rfl := List.isEmpty_iff.1 hNoRest
    have hAbsolute : isAbsolute directory = true := by
      by_contra hRelative
      simp [hRelative, hNonempty] at h
    obtain ⟨others, -, hOthers⟩ := Path.isAbsolute_iff.1 hAbsolute
    have hIdle : ∀ p ∈ pieces directory, isIdle p = true := by
      rw [hPieces] at hOthers ⊢
      exact List.forall_mem_cons.2 ⟨by rw [(List.cons.inj hOthers).1]; rfl, hTail⟩
    have hNul : '\x00' ∉ directory.toList := by
      refine nul_notMem_of_pieces fun p hp hMem => ?_
      have hOr : p = "" ∨ p = "." := by simpa [isIdle] using hIdle p hp
      rcases hOr with rfl | rfl
      · simp at hMem
      · exact absurd hMem (by decide)
    apply isDirectory_of_leadsTo (l := [])
    refine leadsTo_iff.2 ⟨hNul, hNonempty, hShort, ?_⟩
    rw [start, if_pos hAbsolute]
    exact FileTree.way_of_idle rfl hIdle
  · split at h <;> simp at h

theorem isDirectory_of_makeDirectories (h : makeDirectories directory w = (.ok (), v))
    (hNonempty : directory ≠ "") (hShort : directory.utf8ByteSize ≤ Path.lengthLimit) :
    v.isDirectory directory = true := by
  cases hParent : parent? directory with
  | none => exact isDirectory_of_parent?_eq_none hParent hNonempty hShort
  | some top =>
    obtain ⟨tried, -, hForM⟩ := exists_forM_of_makeDirectories hParent hNonempty h
    exact isDirectory_of_forM hForM

theorem makeDirectories_of_prepareDirectory (h : prepareDirectory directory w = (.ok (), v)) :
    makeDirectories directory w = (.ok (), v) := by
  have hFree : (w.exists? directory && !w.isDirectory directory) = false := by
    by_contra hTaken
    rw [prepareDirectory, if_pos (by simpa using hTaken)] at h
    exact absurd (Prod.mk.inj h).1 (by simp)
  rw [prepareDirectory_eq hFree] at h
  rcases hResult : makeDirectories directory w with ⟨e | ⟨⟩, u⟩
  · rw [hResult] at h
    exact absurd (Prod.mk.inj h).1 (by simp [Except.mapError])
  · rw [hResult] at h
    obtain rfl : u = v := (Prod.mk.inj h).2
    rfl

end Workspace

/-- A directory that is empty, or not there. The preparation in `w₁` of one that is not there and
whose path leads up may have made directories in it, on the way of the path. -/
inductive Vacant (directory : String) (w w₁ : Workspace) : Prop where
  | empty (there : w.isDirectory directory = true) (list_eq : w.list directory = [])
  | absent (tree : w.files.Grounded) (notThere : w.isDirectory directory = false)
      (list_eq : ".." ∈ pieces directory → w₁.list directory = [])

/-- When a vacant directory has been prepared, it is there and empty. -/
theorem Vacant.prepared (h : Vacant directory w v)
    (hMade : prepareDirectory directory w = (.ok (), v)) (hNonempty : directory ≠ "")
    (hShort : directory.utf8ByteSize ≤ Path.lengthLimit) :
    v.isDirectory directory = true ∧ v.list directory = [] := by
  have hMake := Workspace.makeDirectories_of_prepareDirectory hMade
  refine ⟨Workspace.isDirectory_of_makeDirectories hMake hNonempty hShort, ?_⟩
  cases h with
  | empty hThere hEmpty =>
    rw [Workspace.prepareDirectory_of_isDirectory hThere] at hMade
    rw [← (Prod.mk.inj hMade).2]
    exact hEmpty
  | absent hTree hAbsent hLeadsUp =>
    by_cases hUp : ".." ∈ pieces directory
    · exact hLeadsUp hUp
    · cases hParent : parent? directory with
      | none =>
        rw [Workspace.isDirectory_of_parent?_eq_none hParent hNonempty hShort] at hAbsent
        simp at hAbsent
      | some top =>
        obtain ⟨tried, hTried, hForM⟩ :=
          Workspace.exists_forM_of_makeDirectories hParent hNonempty hMake
        exact Workspace.list_of_forM hUp hTree hAbsent hTried hForM

/-! ### A home with nothing in it -/

/-- A workspace with nothing in it but the directory in which one stands. -/
def cleanHome : Workspace := ⟨[(["home"], .directory)], ["home"]⟩

/-- The home with a directory made in it. -/
def homeWithOut : Workspace := cleanHome.put ["home", "out"] .directory

/-- The home with a directory made in it, and another one in that. -/
def homeWithSub : Workspace := homeWithOut.put ["home", "out", "sub"] .directory

theorem isName_out : Path.IsName "out" where
  noSlash := by decide
  noNul := by decide
  notIdle := by decide
  notUp := by decide
  short := by decide

theorem isName_sub : Path.IsName "sub" where
  noSlash := by decide
  noNul := by decide
  notIdle := by decide
  notUp := by decide
  short := by decide

theorem grounded_cleanHome : cleanHome.files.Grounded := by
  intro l name entry hLook
  rw [FileTree.look?, if_neg (by simp)] at hLook
  have hMem := List.mem_singleton.1 (OrderedMap.mem_of_find? hLook)
  have hEq : l ++ [name] = [] ++ ["home"] := congrArg Prod.fst hMem
  rw [(List.append_inj' hEq rfl).1]
  rfl

/-- A name is free in the home. -/
theorem place_cleanHome {name : String} (hName : Path.IsName name) (last : Bool) :
    cleanHome.place name last = .ok (.absent ["home", name]) := by
  have hReaches : cleanHome.Reaches cleanHome.here name name :=
    Workspace.reaches_name rfl hName
  have hNone : OrderedMap.find? (cleanHome.entries cleanHome.here) name = none := rfl
  rw [hReaches.place_eq (by simp [hNone]) last, hNone]
  rfl

theorem Workspace.exists?_of_absent {path : String} {l : Location}
    (h : w.place path true = .ok (.absent l)) : w.exists? path = false := by
  rw [exists?, entryAt, h]
  rfl

theorem exists?_cleanHome {name : String} (hName : Path.IsName name) :
    cleanHome.exists? name = false :=
  Workspace.exists?_of_absent (place_cleanHome hName true)

theorem ensureDirectory_out :
    Workspace.ensureDirectory "out" cleanHome = (.ok (), homeWithOut) :=
  Workspace.ensureDirectory_of_absent (by decide) (place_cleanHome isName_out false)

/-- A directory that is not there is made. -/
theorem prepareDirectory_of_absent {l : Location}
    (h : ∀ last, w.place "out" last = .ok (.absent l)) :
    prepareDirectory "out" w = (.ok (), w.put l .directory) := by
  have hAncestors : Workspace.ancestors "out" = ["out"] := by decide +kernel
  have hNone : w.exists? "out" = false := Workspace.exists?_of_absent (h true)
  rw [Workspace.prepareDirectory_eq (by rw [hNone, Bool.false_and]), Workspace.makeDirectories,
    hAncestors, Workspace.makeMissing_of_ok
      (Workspace.ensureDirectory_of_absent (by decide) (h false))]
  rfl

theorem prepareDirectory_out : prepareDirectory "out" cleanHome = (.ok (), homeWithOut) :=
  prepareDirectory_of_absent (place_cleanHome isName_out)

/-- A name in the home leads to a directory that stands under it. -/
theorem Workspace.leadsTo_name {name : String} (hHere : w.files.look? w.here = some .directory)
    (hName : Path.IsName name) (hThere : w.files.look? (w.here ++ [name]) = some .directory) :
    w.LeadsTo name (w.here ++ [name]) := by
  rw [FileTree.look?_child, ← Workspace.entries] at hThere
  rw [LeadsTo, (reaches_name hHere hName).place_eq (by simp [hThere]) true, hThere]

theorem leadsTo_out : homeWithOut.LeadsTo "out" ["home", "out"] :=
  Workspace.leadsTo_name rfl isName_out rfl

theorem vacant_out : Vacant "out" cleanHome homeWithOut := by
  refine .absent grounded_cleanHome ?_ fun hUp => absurd hUp (by decide)
  rw [Workspace.isDirectory, Workspace.entryAt, place_cleanHome isName_out]

/-! ### A path that leads up -/

theorem place_up (w : Workspace) (last : Bool) :
    w.place "out/sub/.." last =
      w.files.walk last FileTree.linkLimit w.here ["out", "sub", ".."] := by
  have hPieces : pieces "out/sub/.." = ["out", "sub", ".."] := by decide +kernel
  rw [Workspace.place_eq_walk (by decide) (by decide) (by decide), hPieces]
  rfl

theorem place_up_cleanHome (last : Bool) :
    cleanHome.place "out/sub/.." last = .error .notFound := by
  rw [place_up]
  exact FileTree.walk_missing rfl isName_out rfl (by decide)

theorem place_sub_cleanHome : cleanHome.place "out/sub" false = .error .notFound := by
  have hPieces : pieces "out/sub" = ["out", "sub"] := by decide +kernel
  rw [Workspace.place_eq_walk (by decide) (by decide) (by decide), hPieces]
  exact FileTree.walk_missing rfl isName_out rfl (by decide)

theorem ensureDirectory_sub :
    Workspace.ensureDirectory "out/sub" homeWithOut = (.ok (), homeWithSub) := by
  have hNone : OrderedMap.find? (homeWithOut.entries ["home", "out"]) "sub" = none := rfl
  have hPlace := (Workspace.reaches_child leadsTo_out isName_sub (by decide)).place_eq
    (by simp [hNone]) false
  rw [hNone] at hPlace
  exact Workspace.ensureDirectory_of_absent (by decide) hPlace

theorem leadsTo_up : homeWithSub.LeadsTo "out/sub/.." ["home", "out"] := by
  have hUp : Way homeWithSub.files ["home", "out"] .directory FileTree.linkLimit
      ["home", "out", "sub"] [".."] := .up rfl (.done rfl)
  have hSub : Way homeWithSub.files ["home", "out"] .directory FileTree.linkLimit
      ["home", "out"] ["sub", ".."] :=
    .enter rfl isName_sub.notIdle isName_sub.notUp isName_sub.short rfl (by simp) hUp
  have hWay : Way homeWithSub.files ["home", "out"] .directory FileTree.linkLimit
      ["home"] ["out", "sub", ".."] :=
    .enter rfl isName_out.notIdle isName_out.notUp isName_out.short rfl (by simp) hSub
  rw [Workspace.LeadsTo, place_up]
  exact hWay.walk_eq

theorem exists?_up : cleanHome.exists? "out/sub/.." = false := by
  rw [Workspace.exists?, Workspace.entryAt, place_up_cleanHome]
  rfl

/-- The directory in which a path ends that leads up holds the directory that was made on the way.
-/
theorem prepareDirectory_up : prepareDirectory "out/sub/.." cleanHome = (.ok (), homeWithSub) := by
  have hAncestors : Workspace.ancestors "out/sub/.." = ["out/sub/..", "out/sub", "out"] := by
    decide +kernel
  have hUp := Workspace.ensureDirectory_of_notFound (by decide) (place_up_cleanHome false)
  have hSub := Workspace.ensureDirectory_of_notFound (by decide) place_sub_cleanHome
  rw [Workspace.prepareDirectory_eq (by rw [exists?_up, Bool.false_and]), Workspace.makeDirectories,
    hAncestors, Workspace.makeMissing_of_notFound hUp, Workspace.makeMissing_of_notFound hSub,
    Workspace.makeMissing_of_ok ensureDirectory_out, List.forM,
    Action.bind_of_ok ensureDirectory_sub, List.forM,
    Action.bind_of_ok (Workspace.ensureDirectory_of_leadsTo leadsTo_up)]
  rfl

end KubeCompose
