import KubeCompose.FileTree.Basic
import KubeCompose.Proofs.OrderedMap
import KubeCompose.Proofs.Path
import Mathlib.Data.List.Induction

/-!
# Laws of file trees

A way that leads to an entry passes only over entries that are there, so that it leads there in any
larger tree; it can be gone on from its end, and idle pieces there do not matter.
-/

namespace KubeCompose.FileTree

open KubeCompose.Path (isIdle IsName)

variable {t t' : FileTree} {last : Bool} {links : Nat} {here l : Location} {ps : List String}
  {entry : Entry}

/-- The pieces lead from a location to an entry at `l`, over at most so many links. -/
inductive Way (t : FileTree) (l : Location) (entry : Entry) : Nat → Location → List String → Prop
  | done {links : Nat} : t.look? l = some entry → Way t l entry links l []
  | idle {links : Nat} {here : Location} {piece : String} {rest : List String} :
    t.look? here = some .directory → isIdle piece = true → Way t l entry links here rest →
      Way t l entry links here (piece :: rest)
  | up {links : Nat} {here : Location} {rest : List String} :
    t.look? here = some .directory → Way t l entry links here.dropLast rest →
      Way t l entry links here (".." :: rest)
  | link {links : Nat} {here : Location} {piece target : String} {rest : List String} :
    t.look? here = some .directory → isIdle piece = false → piece ≠ ".." →
      piece.utf8ByteSize ≤ Path.pieceLimit → t.look? (here ++ [piece]) = some (.link target) →
      Way t l entry links (if Path.isAbsolute target then [] else here)
        (Path.pieces target ++ rest) →
      Way t l entry (links + 1) here (piece :: rest)
  | enter {links : Nat} {here : Location} {piece : String} {rest : List String} {next : Entry} :
    t.look? here = some .directory → isIdle piece = false → piece ≠ ".." →
      piece.utf8ByteSize ≤ Path.pieceLimit → t.look? (here ++ [piece]) = some next →
      (∀ target, next ≠ .link target) → Way t l entry links (here ++ [piece]) rest →
      Way t l entry links here (piece :: rest)

/-- A walk that finds an entry takes a way to it. -/
theorem way_of_walk (h : t.walk true links here ps = .ok (.present l entry)) :
    Way t l entry links here ps := by
  fun_induction walk t true links here ps with
  | case1 links here e hLook =>
    simp only [Except.ok.injEq, Place.present.injEq] at h
    obtain ⟨rfl, rfl⟩ := h
    exact .done hLook
  | case3 links here piece rest hHere hIdle ih => exact .idle hHere hIdle (ih h)
  | case4 links here rest hHere hIdle ih => exact .up hHere (ih h)
  | case8 links here piece rest hHere hIdle hUp hShort next target hNext hEnd => simp at hEnd
  | case10 here piece rest hHere hIdle hUp hShort next target hNext hEnd n start ih =>
    exact .link hHere (by simpa using hIdle) hUp (by simpa using hShort) hNext (ih h)
  | case11 links here piece rest hHere hIdle hUp hShort next e hLink hNext ih =>
    exact .enter hHere (by simpa using hIdle) hUp (by simpa using hShort) hNext hLink (ih h)
  | _ => simp at h

/-- From the end of a way, a walk goes on with the pieces behind it. -/
theorem Way.walk_append (h : Way t l entry links here ps) {rest : List String} (hRest : rest ≠ []) :
    ∃ n, t.walk last links here (ps ++ rest) = t.walk last n l rest := by
  induction h with
  | done hLook => exact ⟨_, rfl⟩
  | idle hHere hIdle _ ih =>
    obtain ⟨n, hn⟩ := ih
    refine ⟨n, ?_⟩
    rw [List.cons_append, walk, hHere]
    simpa only [hIdle, if_true] using hn
  | up hHere _ ih =>
    obtain ⟨n, hn⟩ := ih
    refine ⟨n, ?_⟩
    rw [List.cons_append, walk, hHere]
    simpa [isIdle] using hn
  | @link links here piece target more hHere hIdle hUp hShort hNext _ ih =>
    obtain ⟨n, hn⟩ := ih
    refine ⟨n, ?_⟩
    have hMore : (more ++ rest).isEmpty = false := by simp [hRest]
    rw [List.cons_append, walk, hHere]
    simp only [hIdle, hUp, Nat.not_lt.2 hShort, hNext, hMore, Bool.false_eq_true, if_false,
      Bool.false_and]
    rw [← List.append_assoc]
    exact hn
  | enter hHere hIdle hUp hShort hNext hLink _ ih =>
    obtain ⟨n, hn⟩ := ih
    refine ⟨n, ?_⟩
    rw [List.cons_append, walk, hHere]
    simp only [hIdle, hUp, Nat.not_lt.2 hShort, hNext, Bool.false_eq_true, if_false]
    exact hn

/-- A walk finds what a way leads to. -/
theorem Way.walk_eq (h : Way t l entry links here ps) :
    t.walk true links here ps = .ok (.present l entry) := by
  induction h with
  | done hLook => rw [walk, hLook]
  | idle hHere hIdle _ ih =>
    rw [walk, hHere]
    simpa only [hIdle, if_true] using ih
  | up hHere _ ih =>
    rw [walk, hHere]
    simpa [isIdle] using ih
  | link hHere hIdle hUp hShort hNext _ ih =>
    rw [walk, hHere]
    simp only [hIdle, hUp, Nat.not_lt.2 hShort, hNext, Bool.false_eq_true, if_false, Bool.not_true,
      Bool.and_false]
    exact ih
  | enter hHere hIdle hUp hShort hNext hLink _ ih =>
    rw [walk, hHere]
    simp only [hIdle, hUp, Nat.not_lt.2 hShort, hNext, Bool.false_eq_true, if_false]
    exact ih

/-- A way leads to the same entry in a larger tree. -/
theorem Way.mono (hExtends : ∀ l entry, t.look? l = some entry → t'.look? l = some entry)
    (h : Way t l entry links here ps) : Way t' l entry links here ps := by
  induction h with
  | done hLook => exact .done (hExtends _ _ hLook)
  | idle hHere hIdle _ ih => exact .idle (hExtends _ _ hHere) hIdle ih
  | up hHere _ ih => exact .up (hExtends _ _ hHere) ih
  | link hHere hIdle hUp hShort hNext _ ih =>
    exact .link (hExtends _ _ hHere) hIdle hUp hShort (hExtends _ _ hNext) ih
  | enter hHere hIdle hUp hShort hNext hLink _ ih =>
    exact .enter (hExtends _ _ hHere) hIdle hUp hShort (hExtends _ _ hNext) hLink ih

/-- What a way leads to stands there. -/
theorem Way.look?_eq (h : Way t l entry links here ps) : t.look? l = some entry := by
  induction h with
  | done hLook => exact hLook
  | _ => assumption

/-- An idle piece at the end of a way does not matter. -/
theorem Way.of_concat_idle {piece : String} (hPiece : isIdle piece = true)
    (h : Way t l entry links here (ps ++ [piece])) : Way t l entry links here ps := by
  generalize hAll : ps ++ [piece] = all at h
  induction h generalizing ps with
  | done => simp at hAll
  | idle hHere hIdle hRest ih =>
    cases ps with
    | nil =>
      obtain ⟨-, rfl⟩ := List.cons.inj hAll
      exact hRest
    | cons p ps =>
      obtain ⟨rfl, hEq⟩ := List.cons.inj hAll
      exact .idle hHere hIdle (ih hEq)
  | up hHere hRest ih =>
    cases ps with
    | nil =>
      obtain ⟨rfl, -⟩ := List.cons.inj hAll
      exact absurd hPiece (by decide)
    | cons p ps =>
      obtain ⟨rfl, hEq⟩ := List.cons.inj hAll
      exact .up hHere (ih hEq)
  | link hHere hIdle hUp hShort hNext _ ih =>
    cases ps with
    | nil =>
      obtain ⟨rfl, -⟩ := List.cons.inj hAll
      exact absurd hPiece (by simp [hIdle])
    | cons p ps =>
      obtain ⟨rfl, hEq⟩ := List.cons.inj hAll
      refine .link hHere hIdle hUp hShort hNext (ih ?_)
      rw [List.append_assoc]
      exact congrArg _ hEq
  | enter hHere hIdle hUp hShort hNext hLink _ ih =>
    cases ps with
    | nil =>
      obtain ⟨rfl, -⟩ := List.cons.inj hAll
      exact absurd hPiece (by simp [hIdle])
    | cons p ps =>
      obtain ⟨rfl, hEq⟩ := List.cons.inj hAll
      exact .enter hHere hIdle hUp hShort hNext hLink (ih hEq)

theorem Way.of_append_idle {tail : List String} (hTail : ∀ p ∈ tail, isIdle p = true)
    (h : Way t l entry links here (ps ++ tail)) : Way t l entry links here ps := by
  induction tail using List.reverseRecOn with
  | nil => simpa using h
  | append_singleton tail p ih =>
    rw [← List.append_assoc] at h
    obtain ⟨hInit, hLast⟩ := List.forall_mem_append.1 hTail
    exact ih hInit (h.of_concat_idle (hLast p (List.mem_singleton_self p)))

/-- At a directory, idle pieces lead nowhere else. -/
theorem way_of_idle (hHere : t.look? l = some .directory) (h : ∀ p ∈ ps, isIdle p = true) :
    Way t l .directory links l ps := by
  induction ps with
  | nil => exact .done hHere
  | cons p ps ih =>
    obtain ⟨hPiece, hRest⟩ := List.forall_mem_cons.1 h
    exact .idle hHere hPiece (ih hRest)

/-- Idle pieces may be added at the end of a way to a directory. -/
theorem Way.append_idle {tail : List String} (hTail : ∀ p ∈ tail, isIdle p = true)
    (h : Way t l .directory links here ps) : Way t l .directory links here (ps ++ tail) := by
  induction h with
  | done hLook => exact way_of_idle hLook hTail
  | idle hHere hIdle _ ih => exact .idle hHere hIdle ih
  | up hHere _ ih => exact .up hHere ih
  | link hHere hIdle hUp hShort hNext _ ih =>
    rw [List.append_assoc] at ih
    exact .link hHere hIdle hUp hShort hNext ih
  | enter hHere hIdle hUp hShort hNext hLink _ ih =>
    exact .enter hHere hIdle hUp hShort hNext hLink ih

/-- Where a way leads to something, a walk that does not follow the last link finds something. -/
theorem Way.walk_present (h : Way t l entry links here ps) :
    ∃ k e, t.walk false links here ps = .ok (.present k e) := by
  induction h with
  | done hLook => exact ⟨_, _, by rw [walk, hLook]⟩
  | idle hHere hIdle _ ih =>
    obtain ⟨k, e, hWalk⟩ := ih
    refine ⟨k, e, ?_⟩
    rw [walk, hHere]
    simpa only [hIdle, if_true] using hWalk
  | up hHere _ ih =>
    obtain ⟨k, e, hWalk⟩ := ih
    refine ⟨k, e, ?_⟩
    rw [walk, hHere]
    simpa [isIdle] using hWalk
  | @link links here piece target rest hHere hIdle hUp hShort hNext _ ih =>
    obtain ⟨k, e, hWalk⟩ := ih
    rw [walk, hHere]
    simp only [hIdle, hUp, Nat.not_lt.2 hShort, hNext, Bool.false_eq_true, if_false, Bool.not_false,
      Bool.and_true]
    split
    · exact ⟨_, _, rfl⟩
    · exact ⟨k, e, hWalk⟩
  | enter hHere hIdle hUp hShort hNext hLink _ ih =>
    obtain ⟨k, e, hWalk⟩ := ih
    refine ⟨k, e, ?_⟩
    rw [walk, hHere]
    simp only [hIdle, hUp, Nat.not_lt.2 hShort, hNext, Bool.false_eq_true, if_false]
    exact hWalk

/-- A walk that ends at a free name ends in a directory, under a name that is not there. -/
theorem look?_of_walk_absent (h : t.walk last links here ps = .ok (.absent l)) :
    t.look? l = none ∧ ∃ k name, l = k ++ [name] ∧ t.look? k = some .directory := by
  fun_induction walk t last links here ps with
  | case3 links here piece rest hHere hIdle ih => exact ih h
  | case4 links here rest hHere hIdle ih => exact ih h
  | case6 links here piece rest hHere hIdle hUp hShort next hNext hRest =>
    simp only [Except.ok.injEq, Place.absent.injEq] at h
    rw [← h]
    exact ⟨hNext, here, piece, rfl, hHere⟩
  | case10 here piece rest hHere hIdle hUp hShort next target hNext hEnd n start ih => exact ih h
  | case11 links here piece rest hHere hIdle hUp hShort next e hLink hNext ih => exact ih h
  | _ => simp at h

/-- A walk that ends at a free name leads there once a directory stands under it. -/
theorem way_of_walk_absent (h : t.walk last links here ps = .ok (.absent l))
    (hExtends : ∀ l entry, t.look? l = some entry → t'.look? l = some entry)
    (hThere : t'.look? l = some .directory) : Way t' l .directory links here ps := by
  fun_induction walk t last links here ps with
  | case3 links here piece rest hHere hIdle ih => exact .idle (hExtends _ _ hHere) hIdle (ih h)
  | case4 links here rest hHere hIdle ih => exact .up (hExtends _ _ hHere) (ih h)
  | case6 links here piece rest hHere hIdle hUp hShort next hNext hRest =>
    simp only [Except.ok.injEq, Place.absent.injEq] at h
    subst h
    have hTail : ∀ p ∈ rest, isIdle p = true := by
      intro p hp
      have hEmpty := List.all_eq_true.1 hRest p hp
      rw [beq_iff_eq] at hEmpty
      rw [hEmpty]
      rfl
    exact .enter (hExtends _ _ hHere) (by simpa using hIdle) hUp (by simpa using hShort)
      hThere (by simp) (way_of_idle hThere hTail)
  | case10 here piece rest hHere hIdle hUp hShort next target hNext hEnd n start ih =>
    exact .link (hExtends _ _ hHere) (by simpa using hIdle) hUp (by simpa using hShort)
      (hExtends _ _ hNext) (ih h)
  | case11 links here piece rest hHere hIdle hUp hShort next e hLink hNext ih =>
    exact .enter (hExtends _ _ hHere) (by simpa using hIdle) hUp (by simpa using hShort)
      (hExtends _ _ hNext) hLink (ih h)
  | _ => simp at h

/-- A way is one over its first pieces and then one over the others. -/
theorem Way.split {qs : List String} (h : Way t l entry links here (ps ++ qs)) :
    ∃ k e n, Way t k e links here ps ∧ Way t l entry n k qs := by
  generalize hAll : ps ++ qs = all at h
  induction h generalizing ps with
  | done hLook =>
    obtain ⟨rfl, rfl⟩ := List.append_eq_nil_iff.1 hAll
    exact ⟨_, _, 0, .done hLook, .done hLook⟩
  | idle hHere hIdle hRest ih =>
    cases ps with
    | nil =>
      obtain rfl : qs = _ := hAll
      exact ⟨_, _, _, .done hHere, .idle hHere hIdle hRest⟩
    | cons p ps =>
      obtain ⟨rfl, hEq⟩ := List.cons.inj hAll
      obtain ⟨k, e, n, hFirst, hOthers⟩ := ih hEq
      exact ⟨k, e, n, .idle hHere hIdle hFirst, hOthers⟩
  | up hHere hRest ih =>
    cases ps with
    | nil =>
      obtain rfl : qs = _ := hAll
      exact ⟨_, _, _, .done hHere, .up hHere hRest⟩
    | cons p ps =>
      obtain ⟨rfl, hEq⟩ := List.cons.inj hAll
      obtain ⟨k, e, n, hFirst, hOthers⟩ := ih hEq
      exact ⟨k, e, n, .up hHere hFirst, hOthers⟩
  | link hHere hIdle hUp hShort hNext hRest ih =>
    cases ps with
    | nil =>
      obtain rfl : qs = _ := hAll
      exact ⟨_, _, _, .done hHere, .link hHere hIdle hUp hShort hNext hRest⟩
    | cons p ps =>
      obtain ⟨rfl, hEq⟩ := List.cons.inj hAll
      obtain ⟨k, e, n, hFirst, hOthers⟩ := ih (by rw [List.append_assoc]; exact congrArg _ hEq)
      exact ⟨k, e, n, .link hHere hIdle hUp hShort hNext hFirst, hOthers⟩
  | enter hHere hIdle hUp hShort hNext hLink hRest ih =>
    cases ps with
    | nil =>
      obtain rfl : qs = _ := hAll
      exact ⟨_, _, _, .done hHere, .enter hHere hIdle hUp hShort hNext hLink hRest⟩
    | cons p ps =>
      obtain ⟨rfl, hEq⟩ := List.cons.inj hAll
      obtain ⟨k, e, n, hFirst, hOthers⟩ := ih hEq
      exact ⟨k, e, n, .enter hHere hIdle hUp hShort hNext hLink hFirst, hOthers⟩

/-- No way over a name goes on from a directory without entries, unless it leads out of it. -/
theorem not_way_of_empty (hEmpty : ∀ name, t.look? (here ++ [name]) = none)
    (hUp : ".." ∉ ps) (hName : ∃ name ∈ ps, isIdle name = false) :
    ¬ Way t l entry links here ps := by
  intro h
  induction h with
  | done => simp at hName
  | idle hHere hIdle hRest ih =>
    refine ih hEmpty (fun hMem => hUp (List.mem_cons_of_mem _ hMem)) ?_
    obtain ⟨name, hMem, hName⟩ := hName
    rcases List.mem_cons.1 hMem with rfl | hMem
    · simp [hIdle] at hName
    · exact ⟨name, hMem, hName⟩
  | up => exact hUp (List.mem_cons_self ..)
  | link hHere hIdle hUp hShort hNext => simp [hEmpty] at hNext
  | enter hHere hIdle hUp hShort hNext => simp [hEmpty] at hNext

/-- At the end of a way to a directory, a walk with one name finds what stands under it. -/
theorem walk_name {name : String} (hHere : t.look? l = some .directory) (h : IsName name)
    (hLink : ∀ target, t.look? (l ++ [name]) ≠ some (.link target)) :
    t.walk last links l [name] =
      match t.look? (l ++ [name]) with
      | some entry => .ok (.present (l ++ [name]) entry)
      | none => .ok (.absent (l ++ [name])) := by
  rw [walk, hHere]
  simp only [h.notIdle, h.notUp, Nat.not_lt.2 h.short, Bool.false_eq_true, if_false]
  cases hNext : t.look? (l ++ [name]) with
  | none => rfl
  | some entry =>
    cases entry with
    | link target => exact absurd hNext (hLink target)
    | directory => simp only [walk, hNext]
    | file content executable => simp only [walk, hNext]

/-- At the end of a way to a directory, a walk with the name of a link goes where the link leads. -/
theorem walk_link {name target : String} (hHere : t.look? l = some .directory) (h : IsName name)
    (hLink : t.look? (l ++ [name]) = some (.link target)) :
    t.walk true (links + 1) l [name] =
      t.walk true links (if Path.isAbsolute target then [] else l) (Path.pieces target) := by
  rw [walk, hHere]
  simp only [h.notIdle, h.notUp, Nat.not_lt.2 h.short, hLink, List.isEmpty_nil, Bool.not_true,
    Bool.and_false, Bool.false_eq_true, if_false, List.append_nil]

/-- A walk fails when it is to go on behind a name under which nothing stands. -/
theorem walk_missing {name piece : String} {rest : List String}
    (hHere : t.look? here = some .directory) (h : IsName name)
    (hFree : t.look? (here ++ [name]) = none) (hPiece : piece ≠ "") :
    t.walk last links here (name :: piece :: rest) = .error .notFound := by
  rw [walk, hHere]
  simp [h.notIdle, h.notUp, Nat.not_lt.2 h.short, hFree, hPiece]

/-! ### The entries of a directory -/

theorem children_cons_child (t : FileTree) (l : Location) (name : String) (entry : Entry) :
    children ((l ++ [name], entry) :: t) l = (name, entry) :: children t l := by
  rw [children, List.filterMap_cons]
  simp only [List.getLast?_concat, List.dropLast_concat, if_true]
  rfl

theorem children_cons_other {k l : Location} (h : ∀ name, k ≠ l ++ [name]) (t : FileTree)
    (entry : Entry) : children ((k, entry) :: t) l = children t l := by
  rw [children, List.filterMap_cons]
  cases hLast : k.getLast? with
  | none =>
    simp only [hLast]
    rfl
  | some name =>
    have hParent : k.dropLast ≠ l := by
      rintro rfl
      exact h name (List.dropLast_append_getLast? name hLast).symm
    simp only [hLast, hParent, if_false]
    rfl

/-- An entry of a directory is looked up by its name. -/
theorem look?_child (t : FileTree) (l : Location) (name : String) :
    t.look? (l ++ [name]) = OrderedMap.find? (t.children l) name := by
  rw [look?, if_neg (by simp)]
  induction t with
  | nil => rfl
  | cons e r ih =>
    obtain ⟨k, entry⟩ := e
    rw [OrderedMap.find?_cons, ih]
    by_cases hChild : ∃ other, k = l ++ [other]
    · obtain ⟨other, rfl⟩ := hChild
      rw [children_cons_child, OrderedMap.find?_cons]
      simp
    · have hOther : ∀ other, k ≠ l ++ [other] := fun other hEq => hChild ⟨other, hEq⟩
      rw [children_cons_other hOther, if_neg (by simpa using (hOther name).symm)]

/-- The entries of a directory have different names when nothing stands at a location twice. -/
theorem nodup_children (h : (OrderedMap.keys t).Nodup) (l : Location) :
    (OrderedMap.keys (t.children l)).Nodup := by
  induction t with
  | nil => exact List.nodup_nil
  | cons e t ih =>
    obtain ⟨k, entry⟩ := e
    obtain ⟨hNew, hRest⟩ := List.nodup_cons.1 h
    by_cases hChild : ∃ name, k = l ++ [name]
    · obtain ⟨name, rfl⟩ := hChild
      have hFree : name ∉ OrderedMap.keys (children t l) := by
        rw [← OrderedMap.find?_eq_none_iff, ← look?_child, look?, if_neg (by simp),
          OrderedMap.find?_eq_none_iff]
        exact hNew
      rw [children_cons_child]
      exact List.nodup_cons.2 ⟨hFree, ih hRest⟩
    · rw [children_cons_other fun name hSame => hChild ⟨name, hSame⟩]
      exact ih hRest

/-- What is put under a name in a directory is inserted in its entries. -/
theorem children_put (t : FileTree) (l : Location) (name : String) (entry : Entry) :
    (t.put (l ++ [name]) entry).children l = OrderedMap.insert (t.children l) name entry := by
  rw [put]
  induction t with
  | nil => exact children_cons_child [] l name entry
  | cons e r ih =>
    obtain ⟨k, old⟩ := e
    by_cases hChild : ∃ other, k = l ++ [other]
    · obtain ⟨other, rfl⟩ := hChild
      rw [children_cons_child, OrderedMap.insert, OrderedMap.insert]
      by_cases hName : name = other
      · subst hName
        simp only [beq_self_eq_true, if_true]
        exact children_cons_child r l name entry
      · have hLocation : (l ++ [name] == l ++ [other]) = false := by simpa using hName
        have hBeq : (name == other) = false := by simpa using hName
        rw [hLocation, hBeq, if_neg Bool.false_ne_true, if_neg Bool.false_ne_true,
          children_cons_child, ih]
    · have hOther : ∀ other, k ≠ l ++ [other] := fun other hEq => hChild ⟨other, hEq⟩
      have hBeq : (l ++ [name] == k) = false := by simpa using (hOther name).symm
      rw [OrderedMap.insert, hBeq, if_neg Bool.false_ne_true, children_cons_other hOther,
        children_cons_other hOther, ih]

/-- What is removed under a name in a directory is erased from its entries. -/
theorem children_remove (t : FileTree) (l : Location) (name : String) :
    (t.remove (l ++ [name])).children l = OrderedMap.erase (t.children l) name := by
  rw [remove]
  induction t with
  | nil => rfl
  | cons e r ih =>
    obtain ⟨k, old⟩ := e
    by_cases hChild : ∃ other, k = l ++ [other]
    · obtain ⟨other, rfl⟩ := hChild
      rw [children_cons_child, OrderedMap.erase, OrderedMap.erase]
      by_cases hName : name = other
      · subst hName
        simpa using ih
      · have hLocation : (l ++ [name] == l ++ [other]) = false := by simpa using hName
        have hBeq : (name == other) = false := by simpa using hName
        rw [hLocation, hBeq, if_neg Bool.false_ne_true, if_neg Bool.false_ne_true,
          children_cons_child, ih]
    · have hOther : ∀ other, k ≠ l ++ [other] := fun other hEq => hChild ⟨other, hEq⟩
      have hBeq : (l ++ [name] == k) = false := by simpa using (hOther name).symm
      rw [OrderedMap.erase, hBeq, if_neg Bool.false_ne_true, children_cons_other hOther,
        children_cons_other hOther, ih]

theorem children_put_other {k l : Location} (h : ∀ name, k ≠ l ++ [name]) (t : FileTree)
    (entry : Entry) : (t.put k entry).children l = t.children l := by
  rw [put]
  induction t with
  | nil => exact children_cons_other h [] entry
  | cons e r ih =>
    obtain ⟨j, old⟩ := e
    rw [OrderedMap.insert]
    split
    · rename_i hKey
      obtain rfl := eq_of_beq hKey
      rw [children_cons_other h, children_cons_other h]
    · by_cases hChild : ∃ name, j = l ++ [name]
      · obtain ⟨name, rfl⟩ := hChild
        rw [children_cons_child, children_cons_child, ih]
      · have hOther : ∀ name, j ≠ l ++ [name] := fun name hEq => hChild ⟨name, hEq⟩
        rw [children_cons_other hOther, children_cons_other hOther, ih]

/-- Each entry stands in a directory. -/
def Grounded (t : FileTree) : Prop :=
  ∀ l name entry, t.look? (l ++ [name]) = some entry → t.look? l = some .directory

/-- Nothing stands where there is no directory. -/
theorem Grounded.children_eq_nil {t : FileTree} (h : t.Grounded) (hNone : t.look? l = none) :
    t.children l = [] := by
  cases hChildren : t.children l with
  | nil => rfl
  | cons e r =>
    have hLook := look?_child t l e.1
    rw [hChildren, OrderedMap.find?_cons, if_pos (beq_self_eq_true _)] at hLook
    rw [h l e.1 e.2 hLook] at hNone
    simp at hNone

end KubeCompose.FileTree
