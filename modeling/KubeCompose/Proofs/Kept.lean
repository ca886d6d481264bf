import KubeCompose.Proofs.Folder

/-!
# What a change leaves alone

In a file tree as file systems have them, an operation on a path changes nothing but the place to
which the path leads. So a file stays as it is as long as no path to which something is written
leads to it: which paths lead to it is known from the tree at the start, since no operation on files
makes a directory or a link.
-/

namespace KubeCompose

open KubeCompose.Path (IsName child withFileName pieces)

/-- The location of a place. -/
def Place.location : Place → Location
  | .present l _ => l
  | .absent l => l

namespace FileTree

variable {t : FileTree} {last : Bool} {links : Nat} {here l : Location} {ps : List String}
  {entry : Entry} {name : String}

/-- A tree as file systems have them: nothing stands at a location twice, and names and the targets
of links are such that a call can take them. -/
structure Sound (t : FileTree) : Prop where
  distinct : (OrderedMap.keys t).Nodup
  isName : ∀ l name entry, t.look? (l ++ [name]) = some entry → IsName name
  target : ∀ l target, t.look? l = some (.link target) → '\x00' ∉ target.toList

theorem Sound.put (h : t.Sound) (hName : ∀ k name, l = k ++ [name] → IsName name)
    (hFile : ∀ target, entry ≠ .link target) : (t.put l entry).Sound where
  distinct := OrderedMap.nodup_keys_insert h.distinct l entry
  isName k name e hLook := by
    rw [look?_put, if_neg (by simp)] at hLook
    split at hLook
    · rename_i hSame
      exact hName k name hSame.symm
    · exact h.isName k name e hLook
  target k target hLook := by
    rw [look?_put] at hLook
    split at hLook
    · simp at hLook
    · split at hLook
      · exact absurd (Option.some.inj hLook) (hFile target)
      · exact h.target k target hLook

theorem Sound.remove (h : t.Sound) (l : Location) : (t.remove l).Sound where
  distinct := by
    rw [FileTree.remove, OrderedMap.erase_eq_filter]
    exact (List.filter_sublist.map _).nodup h.distinct
  isName k name e hLook := by
    rw [look?_remove, if_neg (by simp)] at hLook
    split at hLook
    · simp at hLook
    · exact h.isName k name e hLook
  target k target hLook := by
    rw [look?_remove] at hLook
    split at hLook
    · simp at hLook
    · split at hLook
      · simp at hLook
      · exact h.target k target hLook

/-- What a walk finds stands there. -/
theorem look?_of_walk (h : t.walk last links here ps = .ok (.present l entry)) :
    t.look? l = some entry := by
  fun_induction walk t last links here ps with
  | case1 links here e hHere =>
    simp only [Except.ok.injEq, Place.present.injEq] at h
    rw [← h.1, hHere, h.2]
  | case3 links here piece rest hHere hIdle ih => exact ih h
  | case4 links here rest hHere hIdle ih => exact ih h
  | case8 links here piece rest hHere hIdle hUp hShort next target hNext hEnd =>
    simp only [Except.ok.injEq, Place.present.injEq] at h
    rw [← h.1, hNext, h.2]
  | case10 here piece rest hHere hIdle hUp hShort next target hNext hEnd n start ih => exact ih h
  | case11 links here piece rest hHere hIdle hUp hShort next e hLink hNext ih => exact ih h
  | _ => simp at h

/-- A walk that ends at no link finds the same when it would follow one. -/
theorem walk_true_of_walk (h : t.walk last links here ps = .ok (.present l entry))
    (hNoLink : ∀ target, entry ≠ .link target) :
    t.walk true links here ps = .ok (.present l entry) := by
  fun_induction walk t last links here ps with
  | case1 links here e hHere =>
    rw [walk, hHere]
    exact h
  | case3 links here piece rest hHere hIdle ih =>
    rw [walk, hHere]
    simpa only [hIdle, if_true] using ih h
  | case4 links here rest hHere hIdle ih =>
    rw [walk, hHere]
    simpa [Path.isIdle] using ih h
  | case8 links here piece rest hHere hIdle hUp hShort next target hNext hEnd =>
    simp only [Except.ok.injEq, Place.present.injEq] at h
    exact absurd h.2.symm (hNoLink target)
  | case10 here piece rest hHere hIdle hUp hShort next target hNext hEnd n start ih =>
    have hNext' : t.look? (here ++ [piece]) = some (.link target) := hNext
    rw [walk, hHere]
    simp only [hIdle, hUp, hShort, hNext', Bool.not_true, Bool.and_false, if_false,
      Bool.false_eq_true]
    exact ih h
  | case11 links here piece rest hHere hIdle hUp hShort next e hLink hNext ih =>
    have hNext' : t.look? (here ++ [piece]) = some e := hNext
    rw [walk, hHere]
    simp only [hIdle, hUp, hShort, hNext', if_false, Bool.false_eq_true]
    exact ih h
  | _ => simp at h

/-- A free name to which a walk leads is one that can be given. -/
theorem isName_of_walk_absent (hSound : t.Sound)
    (hPieces : ∀ p ∈ ps, '/' ∉ p.toList ∧ '\x00' ∉ p.toList)
    (h : t.walk last links here ps = .ok (.absent (l ++ [name]))) : IsName name := by
  fun_induction walk t last links here ps with
  | case3 links here piece rest hHere hIdle ih =>
    exact ih (List.forall_mem_cons.1 hPieces).2 h
  | case4 links here rest hHere hIdle ih => exact ih (List.forall_mem_cons.1 hPieces).2 h
  | case6 links here piece rest hHere hIdle hUp hShort next hNext hRest =>
    simp only [Except.ok.injEq, Place.absent.injEq] at h
    obtain rfl : piece = name := by simpa using (List.append_inj' h rfl).2
    obtain ⟨hSlash, hNul⟩ := (List.forall_mem_cons.1 hPieces).1
    exact ⟨hSlash, hNul, by simpa using hIdle, hUp, Nat.not_lt.1 hShort⟩
  | case10 here piece rest hHere hIdle hUp hShort next target hNext hEnd n start ih =>
    refine ih (List.forall_mem_append.2 ⟨fun p hp => ?_, (List.forall_mem_cons.1 hPieces).2⟩) h
    obtain ⟨hSlash, hChars⟩ := Path.of_mem_pieces hp
    exact ⟨hSlash, fun hNul => hSound.target _ target hNext (hChars _ hNul)⟩
  | case11 links here piece rest hHere hIdle hUp hShort next e hLink hNext ih =>
    exact ih (List.forall_mem_cons.1 hPieces).2 h
  | _ => simp at h

end FileTree

namespace Workspace

variable {w v v' v'' u : Workspace} {path other directory name : String} {k l : Location}
  {last : Bool} {place : Place} {entry : Entry} {content : ByteArray} {executable : Bool}

theorem look?_of_present (h : w.place path last = .ok (.present l entry)) :
    w.files.look? l = some entry := by
  obtain ⟨-, -, -, hWalk⟩ := place_eq_ok_iff.1 h
  exact FileTree.look?_of_walk hWalk

/-- Under the name to which a path leads something can stand. -/
theorem isName_of_place (hSound : w.files.Sound) (h : w.place path last = .ok place)
    (hLocation : place.location = l ++ [name]) : IsName name := by
  cases place with
  | present m e =>
    obtain rfl : m = l ++ [name] := hLocation
    exact hSound.isName l name e (look?_of_present h)
  | absent m =>
    obtain rfl : m = l ++ [name] := hLocation
    obtain ⟨hNul, -, -, hWalk⟩ := place_eq_ok_iff.1 h
    refine FileTree.isName_of_walk_absent hSound (fun p hp => ?_) hWalk
    obtain ⟨hSlash, hChars⟩ := Path.of_mem_pieces hp
    exact ⟨hSlash, fun hMem => hNul (hChars _ hMem)⟩

/-- A path under which nothing is found leads elsewhere than to a file. -/
theorem location_ne_of_exists? (hFile : w.files.look? k = some (.file content executable))
    (hFree : w.exists? path = false) (hPlace : w.place path last = .ok place) :
    place.location ≠ k := by
  cases place with
  | present m e =>
    rintro rfl
    have hEntry := look?_of_present hPlace
    have hSame : some e = some (.file content executable) := hEntry.symm.trans hFile
    obtain ⟨hNul, hNonempty, hShort, hWalk⟩ := place_eq_ok_iff.1 hPlace
    have hFollowed : w.place path true = .ok (.present m e) := by
      refine place_eq_ok_iff.2 ⟨hNul, hNonempty, hShort, FileTree.walk_true_of_walk hWalk ?_⟩
      rintro target rfl
      simp at hSame
    rw [exists?, entryAt, hFollowed] at hFree
    exact absurd hFree (by simp [Except.isOk, Except.toBool])
  | absent m =>
    rintro rfl
    obtain ⟨-, -, -, hWalk⟩ := place_eq_ok_iff.1 hPlace
    obtain ⟨hNone, -⟩ := FileTree.look?_of_walk_absent hWalk
    exact absurd (hNone.symm.trans hFile) (by simp)

/-- A path leads to an entry at a location. -/
def Opens (w : Workspace) (path : String) (k : Location) : Prop :=
  ∃ entry, w.place path true = .ok (.present k entry)

/-- Nothing but a file stands where a path leads that can be written to. -/
def FreeFor (w : Workspace) (l : Location) : Prop := ∀ e, w.files.look? l = some e → e.IsFile

theorem freeFor_absent (h : w.place path last = .ok (.absent l)) : w.FreeFor l := by
  obtain ⟨-, -, -, hWalk⟩ := place_eq_ok_iff.1 h
  obtain ⟨hNone, -⟩ := FileTree.look?_of_walk_absent hWalk
  intro e hLook
  rw [hNone] at hLook
  exact absurd hLook (by simp)

theorem freeFor_file (h : w.place path last = .ok (.present l (.file content executable))) :
    w.FreeFor l := by
  intro e hLook
  rw [look?_of_present h] at hLook
  exact ⟨content, executable, (Option.some.inj hLook).symm⟩

theorem FreeFor.ne_nil (h : w.FreeFor l) : l ≠ [] := by
  rintro rfl
  exact FileTree.not_isFile_directory (h .directory rfl)

/-- What is written is put where the path leads. -/
theorem of_write (h : w.write path content = .ok u) :
    ∃ place x, w.place path true = .ok place ∧ w.FreeFor place.location ∧
      u = w.put place.location (.file content x) := by
  rw [write] at h
  cases hSlash : Path.endsInSlash path with
  | true =>
    cases hPlace : w.place (Path.withoutEndSlashes path) true with
    | error e => simp [hPlace] at h
    | ok place => simp [hPlace, hSlash] at h
  | false =>
    rw [withoutEndSlashes_eq_self hSlash] at h
    cases hPlace : w.place path true with
    | error e => simp [hPlace] at h
    | ok place =>
      simp only [hPlace, hSlash, Bool.false_eq_true, if_false] at h
      cases place with
      | absent l => exact ⟨_, false, rfl, freeFor_absent hPlace, (Except.ok.inj h).symm⟩
      | present l e =>
        cases e with
        | file old x => exact ⟨_, x, rfl, freeFor_file hPlace, (Except.ok.inj h).symm⟩
        | directory => simp at h
        | link target => simp at h

/-- A copy is emptied and filled with what the file under the source has then. -/
theorem of_copy {source : String} (h : w.copy source path = .ok u) :
    ∃ bytes x place, w.place path true = .ok place ∧ w.FreeFor place.location ∧
      (∃ l old, w.place source true = .ok (.present l (.file old x)) ∧
        bytes = (w.put place.location (.file .empty x)).bytesAt l) ∧
      u = (w.put place.location (.file .empty x)).put place.location (.file bytes x) := by
  rw [copy] at h
  cases hSource : w.place source true with
  | error e => simp [hSource] at h
  | ok found =>
    cases found with
    | absent l => simp [hSource] at h
    | present l entry =>
      cases entry with
      | directory => simp [hSource] at h
      | link target => simp [hSource] at h
      | file old x =>
        cases hPlace : w.place path true with
        | error e => simp [hSource, hPlace] at h
        | ok place =>
          cases place with
          | absent m =>
            simp only [hSource, hPlace] at h
            exact ⟨_, x, _, rfl, freeFor_absent hPlace, ⟨l, old, rfl, rfl⟩,
              (Except.ok.inj h).symm⟩
          | present m e =>
            cases e with
            | directory => simp [hSource, hPlace] at h
            | link target => simp [hSource, hPlace] at h
            | file other y =>
              simp only [hSource, hPlace] at h
              exact ⟨_, x, _, rfl, freeFor_file hPlace, ⟨l, old, rfl, rfl⟩,
                (Except.ok.inj h).symm⟩

theorem sound_of_copy {source : String} (hSound : w.files.Sound)
    (h : w.copy source path = .ok u) : u.files.Sound := by
  obtain ⟨bytes, x, place, hPlace, -, -, rfl⟩ := of_copy h
  have hName : ∀ m name, place.location = m ++ [name] → IsName name := fun _ _ hLocation =>
    isName_of_place hSound hPlace hLocation
  exact (hSound.put hName (by simp)).put hName (by simp)

/-- A copy that is another file than its source has the bytes of the source. -/
theorem look?_of_copy {source : String} (h : w.copy source path = .ok u)
    (hPlace : w.place path true = .ok place) (hApart : ¬ w.Opens source place.location) :
    ∃ bytes x, w.read source = .ok bytes ∧
      u.files.look? place.location = some (.file bytes x) := by
  obtain ⟨bytes, x, place', hPlace', hFree, ⟨l, old, hSource, hBytes⟩, rfl⟩ := of_copy h
  obtain rfl : place = place' := Except.ok.inj (hPlace.symm.trans hPlace')
  have hNe : l ≠ place.location := by
    rintro rfl
    exact hApart ⟨_, hSource⟩
  have hOld : bytes = old := by
    have hLook := look?_of_present hSource
    have hNotRoot : l ≠ [] := by
      rintro rfl
      simp [FileTree.look?] at hLook
    rw [hBytes, bytesAt, put, FileTree.look?_put, if_neg hNotRoot, if_neg hNe, hLook]
  refine ⟨bytes, x, ?_, ?_⟩
  · rw [read, entryAt, hSource, hOld]
  · rw [put, FileTree.look?_put, if_neg hFree.ne_nil, if_pos rfl]

/-- A workspace in which the entry at a location is as in another one, and no directory and no link
is new. -/
structure Kept (k : Location) (w v : Workspace) : Prop where
  here : v.here = w.here
  skeleton : v.files.SkeletonIn w.files
  same : v.files.look? k = w.files.look? k
  sound : v.files.Sound

namespace Kept

theorem refl (h : w.files.Sound) (k : Location) : Kept k w w := ⟨rfl, .refl _, rfl, h⟩

theorem trans (h : Kept k w v) (h' : Kept k v u) : Kept k w u :=
  ⟨h'.here.trans h.here, h'.skeleton.trans h.skeleton, h'.same.trans h.same, h'.sound⟩

theorem leadsTo (h : Kept k w v) (hLeads : v.LeadsTo directory l) : w.LeadsTo directory l :=
  hLeads.of_skeletonIn h.here.symm h.skeleton

section File

variable (h : Kept k w v) (hFile : w.files.look? k = some (.file content executable))
include h hFile

/-- A path that leads to the file did so before. -/
theorem place_eq (hPlace : v.place path last = .ok (.present k entry)) :
    w.place path last = .ok (.present k (.file content executable)) :=
  place_of_skeletonIn h.here.symm h.skeleton hPlace hFile fun _ => ⟨_, _, rfl⟩

/-- A path that led not to the file leads to another place. -/
theorem location_ne (hPath : ∀ entry, w.place path last ≠ .ok (.present k entry))
    (hPlace : v.place path last = .ok place) : place.location ≠ k := by
  cases place with
  | present m e =>
    rintro rfl
    exact hPath _ (h.place_eq hFile hPlace)
  | absent m =>
    intro hEq
    obtain rfl : m = k := hEq
    obtain ⟨-, -, -, hWalk⟩ := place_eq_ok_iff.1 hPlace
    obtain ⟨hNone, -⟩ := FileTree.look?_of_walk_absent hWalk
    rw [h.same, hFile] at hNone
    exact absurd hNone (by simp)

end File

/-- A file is put elsewhere. -/
theorem put (h : Kept k w v) (hNe : l ≠ k) (hName : ∀ m name, l = m ++ [name] → IsName name)
    (content : ByteArray) (executable : Bool) : Kept k w (v.put l (.file content executable)) where
  here := h.here
  skeleton := (FileTree.put_skeletonIn v.files l ⟨content, executable, rfl⟩).trans h.skeleton
  same := by
    rw [Workspace.put, FileTree.look?_put, if_neg hNe.symm, ← h.same]
    split
    · rename_i hRoot
      rw [hRoot]
      rfl
    · rfl
  sound := h.sound.put hName (by simp)

/-- What stands elsewhere is taken away. -/
theorem remove (h : Kept k w v) (hNe : l ≠ k) :
    Kept k w { v with files := v.files.remove l } where
  here := h.here
  skeleton := (FileTree.remove_skeletonIn v.files l).trans h.skeleton
  same := by
    rw [FileTree.look?_remove, if_neg hNe.symm, ← h.same]
    split
    · rename_i hRoot
      rw [hRoot]
      rfl
    · rfl
  sound := h.sound.remove l

section File

variable (h : Kept k w v) (hFile : w.files.look? k = some (.file content executable))
include h hFile

/-- The place of a path gets a file. -/
theorem put_place (hPath : ∀ entry, w.place path last ≠ .ok (.present k entry))
    (hPlace : v.place path last = .ok place) (bytes : ByteArray) (x : Bool) :
    Kept k w (v.put place.location (.file bytes x)) :=
  h.put (h.location_ne hFile hPath hPlace)
    (fun _ _ hLocation => isName_of_place h.sound hPlace hLocation) bytes x

theorem write {bytes : ByteArray} (hPath : ¬ w.Opens path k) (hWrite : v.write path bytes = .ok u) :
    Kept k w u := by
  have hElsewhere : ∀ entry, w.place path true ≠ .ok (.present k entry) := fun entry hEntry =>
    hPath ⟨entry, hEntry⟩
  obtain ⟨place, x, hPlace, -, rfl⟩ := of_write hWrite
  exact h.put_place hFile hElsewhere hPlace bytes x

theorem copy {source : String} (hPath : ¬ w.Opens path k) (hCopy : v.copy source path = .ok u) :
    Kept k w u := by
  have hElsewhere : ∀ entry, w.place path true ≠ .ok (.present k entry) := fun entry hEntry =>
    hPath ⟨entry, hEntry⟩
  obtain ⟨bytes, x, place, hPlace, -, -, rfl⟩ := of_copy hCopy
  have hNe := h.location_ne hFile hElsewhere hPlace
  have hName : ∀ m name, place.location = m ++ [name] → IsName name := fun _ _ hLocation =>
    isName_of_place h.sound hPlace hLocation
  exact (h.put hNe hName .empty x).put hNe hName bytes x

/-- A file that stands elsewhere is taken away. -/
theorem delete (hPath : ∀ entry, w.place path false ≠ .ok (.present k entry))
    (hDelete : v.delete path = .ok u) : Kept k w u := by
  rw [Workspace.delete] at hDelete
  cases hPlace : v.place path false with
  | error e => simp [hPlace] at hDelete
  | ok place =>
    have hNe := h.location_ne hFile hPath hPlace
    cases place with
    | absent l => simp [hPlace] at hDelete
    | present l e =>
      cases e with
      | directory => simp [hPlace] at hDelete
      | _ =>
        simp only [hPlace] at hDelete
        rw [← Except.ok.inj hDelete]
        exact h.remove hNe

/-- A file is moved to where nothing is found. -/
theorem move (hPath : ∀ entry, w.place path false ≠ .ok (.present k entry))
    (hSource : ∀ l entry, v.place path false = .ok (.present l entry) → entry.IsFile)
    (hFree : v.exists? other = false) (hMove : v.move path other = .ok u) : Kept k w u := by
  have hThere : v.files.look? k = some (.file content executable) := by rw [h.same, hFile]
  rw [Workspace.move] at hMove
  cases hPlace : v.place path false with
  | error e => simp [hPlace] at hMove
  | ok source =>
    cases source with
    | absent l => simp [hPlace] at hMove
    | present source entry =>
      obtain ⟨bytes, x, rfl⟩ := hSource source entry hPlace
      have hRemoved := h.remove (h.location_ne hFile hPath hPlace)
      cases hTarget : v.place other false with
      | error e => simp [hPlace, hTarget] at hMove
      | ok target =>
        have hPut := hRemoved.put (location_ne_of_exists? hThere hFree hTarget)
          (fun _ _ hLocation => isName_of_place h.sound hTarget hLocation) bytes x
        cases target with
        | absent l =>
          simp only [hPlace, hTarget] at hMove
          rw [← Except.ok.inj hMove]
          exact hPut
        | present l e =>
          cases e with
          | directory => simp [hPlace, hTarget] at hMove
          | _ =>
            simp only [hPlace, hTarget] at hMove
            rw [← Except.ok.inj hMove]
            exact hPut

end File

end Kept

end Workspace

/-! ### Actions that keep something -/

namespace Action

variable {ε α β : Type} {P : Workspace → Prop}

/-- An action that keeps a property of the workspace, whether it succeeds or not. -/
def Keeps (P : Workspace → Prop) (x : Action ε α) : Prop := ∀ w, P w → P (x w).2

theorem keeps_pure (a : α) : Keeps P (pure a : Action ε α) := fun _ h => h

theorem keeps_ask (question : Workspace → Except ε α) : Keeps P (ask question) := fun _ h => h

theorem of_ask_eq_ok {question : Workspace → Except ε α} {a : α} {w v : Workspace}
    (h : ask question w = (.ok a, v)) : question w = .ok a ∧ v = w := by
  rw [ask, Prod.mk.injEq] at h
  exact ⟨h.1, h.2.symm⟩

theorem of_change_eq_ok {step : Workspace → Except ε Workspace} {w v : Workspace}
    (h : change step w = (.ok (), v)) : step w = .ok v := by
  rw [change] at h
  split at h
  · rename_i hStep
    rw [hStep, (Prod.mk.inj h).2]
  · exact absurd (Prod.mk.inj h).1 (by simp)

theorem keeps_change {step : Workspace → Except ε Workspace}
    (h : ∀ w v, P w → step w = .ok v → P v) : Keeps P (change step) := by
  intro w hw
  rw [change]
  cases hStep : step w with
  | error e => exact hw
  | ok v => exact h w v hw hStep

/-- What holds after a first part that fails, and after the second one otherwise, holds after
both. -/
theorem of_bind {x : Action ε α} {f : α → Action ε β} {w : Workspace} (hx : P (x w).2)
    (hf : ∀ a v, x w = (.ok a, v) → P (f a v).2) : P ((x >>= f) w).2 := by
  rcases hAnswer : x w with ⟨e | a, v⟩
  · rw [hAnswer] at hx
    rwa [bind_of_error hAnswer]
  · rw [bind_of_ok hAnswer]
    exact hf a v hAnswer

theorem Keeps.bind {x : Action ε α} {f : α → Action ε β} (hx : Keeps P x)
    (hf : ∀ a, Keeps P (f a)) : Keeps P (x >>= f) := by
  intro w hw
  have hFirst := hx w hw
  refine of_bind hFirst fun a v hAnswer => hf a v ?_
  rwa [hAnswer] at hFirst

theorem keeps_forM {as : List α} {f : α → Action ε Unit} (h : ∀ a ∈ as, Keeps P (f a)) :
    Keeps P (as.forM f) := by
  induction as with
  | nil => exact keeps_pure ()
  | cons a as ih =>
    obtain ⟨hHead, hRest⟩ := List.forall_mem_cons.1 h
    exact hHead.bind fun _ => ih hRest

theorem keeps_mapM {as : List α} {f : α → Action ε β} (h : ∀ a ∈ as, Keeps P (f a)) :
    Keeps P (as.mapM f) := by
  induction as with
  | nil =>
    rw [List.mapM_nil]
    exact keeps_pure []
  | cons a as ih =>
    obtain ⟨hHead, hRest⟩ := List.forall_mem_cons.1 h
    rw [List.mapM_cons]
    exact hHead.bind fun b => (ih hRest).bind fun bs => keeps_pure (b :: bs)

end Action

end KubeCompose
