import KubeCompose.Proofs.FileTree
import KubeCompose.Workspace

/-!
# Laws of workspaces

What the operations do with the entries of one directory. Its path is followed once; a path that
names an entry leads to the location of the directory and the name, however the path is spelled, and
each operation on such a path is one on the entries of the directory and on nothing else.
-/

namespace KubeCompose

namespace Workspace

open FileTree (Way)
open KubeCompose.Path (IsName child withFileName pieces isAbsolute endsInSlash)

variable {w v : Workspace} {directory path name other : String} {l : Location}

/-- A path leads to a directory at a location. -/
def LeadsTo (w : Workspace) (directory : String) (l : Location) : Prop :=
  w.place directory true = .ok (.present l .directory)

/-- Where a path begins. -/
def start (w : Workspace) (path : String) : Location := if isAbsolute path then [] else w.here

/-- The entries of the directory at a location. -/
def entries (w : Workspace) (l : Location) : OrderedMap String Entry := w.files.children l

theorem exists_leadsTo (h : w.isDirectory directory = true) : ∃ l, w.LeadsTo directory l := by
  rw [isDirectory, entryAt] at h
  cases hPlace : w.place directory true with
  | error e => simp [hPlace] at h
  | ok place =>
    cases place with
    | absent l => simp [hPlace] at h
    | present l entry =>
      cases entry with
      | directory => exact ⟨l, hPlace⟩
      | _ => simp [hPlace] at h

theorem isDirectory_of_leadsTo (h : w.LeadsTo directory l) : w.isDirectory directory = true := by
  rw [LeadsTo] at h
  simp [isDirectory, entryAt, h]

theorem list_of_leadsTo (h : w.LeadsTo directory l) : (w.list directory).Perm (w.entries l) := by
  rw [LeadsTo] at h
  rw [list, h]
  exact List.mergeSort_perm _ _

/-- A path that a call can take is followed by its pieces. -/
theorem place_eq_walk (hNul : '\x00' ∉ path.toList) (hNonempty : path ≠ "")
    (hShort : path.utf8ByteSize ≤ Path.lengthLimit) (last : Bool) :
    w.place path last = w.files.walk last FileTree.linkLimit (w.start path) (pieces path) := by
  rw [place, if_neg (by simpa using hNul), if_neg hNonempty, if_neg (Nat.not_lt.2 hShort)]
  rfl

/-- A path leads somewhere when it is a text without a null character, not empty and not too long,
and its pieces lead there. -/
theorem place_eq_ok_iff {last : Bool} {place : Place} :
    w.place path last = .ok place ↔
      '\x00' ∉ path.toList ∧ path ≠ "" ∧ path.utf8ByteSize ≤ Path.lengthLimit ∧
        w.files.walk last FileTree.linkLimit (w.start path) (pieces path) = .ok place := by
  constructor
  · intro h
    rw [Workspace.place] at h
    split at h
    · simp at h
    · rename_i hNul
      split at h
      · simp at h
      · rename_i hEmpty
        split at h
        · simp at h
        · rename_i hLong
          exact ⟨by simpa using hNul, hEmpty, Nat.not_lt.1 hLong, h⟩
  · rintro ⟨hNul, hNonempty, hShort, hWalk⟩
    rw [place_eq_walk hNul hNonempty hShort, hWalk]

/-- What a path leads to stands there. -/
theorem look?_of_place {entry : Entry} (h : w.place path true = .ok (.present l entry)) :
    w.files.look? l = some entry := by
  obtain ⟨-, -, -, hWalk⟩ := place_eq_ok_iff.1 h
  exact (FileTree.way_of_walk hWalk).look?_eq

theorem leadsTo_iff :
    w.LeadsTo directory l ↔
      '\x00' ∉ directory.toList ∧ directory ≠ "" ∧ directory.utf8ByteSize ≤ Path.lengthLimit ∧
        Way w.files l .directory FileTree.linkLimit (w.start directory) (pieces directory) := by
  rw [LeadsTo, place_eq_ok_iff]
  constructor
  · rintro ⟨hNul, hEmpty, hShort, hWalk⟩
    exact ⟨hNul, hEmpty, hShort, FileTree.way_of_walk hWalk⟩
  · rintro ⟨hNul, hEmpty, hShort, hWay⟩
    exact ⟨hNul, hEmpty, hShort, hWay.walk_eq⟩

/-- Two workspaces in which nothing but the entries of the directory at a location differs. -/
structure SameOutside (l : Location) (w v : Workspace) : Prop where
  here : v.here = w.here
  look : ∀ k, (∀ name, k ≠ l ++ [name]) → v.files.look? k = w.files.look? k

theorem SameOutside.refl (l : Location) (w : Workspace) : SameOutside l w w := ⟨rfl, fun _ _ => rfl⟩

theorem SameOutside.trans {u : Workspace} (h : SameOutside l w v) (h' : SameOutside l v u) :
    SameOutside l w u :=
  ⟨h'.here.trans h.here, fun k hk => (h'.look k hk).trans (h.look k hk)⟩

/-- A path leads to the same entry where all is still there that was. -/
theorem place_of_extends {entry : Entry} (hHere : v.here = w.here)
    (hExtends : ∀ k entry, w.files.look? k = some entry → v.files.look? k = some entry)
    (h : w.place path true = .ok (.present l entry)) :
    v.place path true = .ok (.present l entry) := by
  obtain ⟨hNul, hNonempty, hShort, hWalk⟩ := place_eq_ok_iff.1 h
  refine place_eq_ok_iff.2 ⟨hNul, hNonempty, hShort, ?_⟩
  rw [start, hHere]
  exact ((FileTree.way_of_walk hWalk).mono hExtends).walk_eq

/-- All is still there when the entries of the directory are. -/
theorem SameOutside.look?_mono (hSame : SameOutside l w v)
    (hKept : ∀ name entry, OrderedMap.find? (w.entries l) name = some entry →
      OrderedMap.find? (v.entries l) name = some entry) :
    ∀ k entry, w.files.look? k = some entry → v.files.look? k = some entry := by
  intro k entry hLook
  by_cases hChild : ∃ name, k = l ++ [name]
  · obtain ⟨name, rfl⟩ := hChild
    rw [FileTree.look?_child] at hLook ⊢
    exact hKept name entry hLook
  · rw [hSame.look k fun name hEq => hChild ⟨name, hEq⟩, hLook]

theorem sameOutside_put (w : Workspace) (l : Location) (name : String) (entry : Entry) :
    SameOutside l w (w.put (l ++ [name]) entry) := by
  refine ⟨rfl, fun k hk => ?_⟩
  rw [put, FileTree.look?_put, if_neg (hk name)]
  split
  · rename_i hRoot
    rw [hRoot]
    rfl
  · rfl

theorem sameOutside_remove (w : Workspace) (l : Location) (name : String) :
    SameOutside l w { w with files := w.files.remove (l ++ [name]) } := by
  refine ⟨rfl, fun k hk => ?_⟩
  rw [FileTree.look?_remove, if_neg (hk name)]
  split
  · rename_i hRoot
    rw [hRoot]
    rfl
  · rfl

theorem entries_put (w : Workspace) (l : Location) (name : String) (entry : Entry) :
    (w.put (l ++ [name]) entry).entries l = OrderedMap.insert (w.entries l) name entry :=
  FileTree.children_put w.files l name entry

/-! ### Paths of the entries of a directory -/

/-- A path leads to a name in the directory at a location, whether an entry stands there or none;
links are left out. -/
structure Reaches (w : Workspace) (l : Location) (name path : String) : Prop where
  noEndSlash : endsInSlash path = false
  place_eq : (∀ target, OrderedMap.find? (w.entries l) name ≠ some (.link target)) → ∀ last,
    w.place path last =
      match OrderedMap.find? (w.entries l) name with
      | some entry => .ok (.present (l ++ [name]) entry)
      | none => .ok (.absent (l ++ [name]))

/-- A path reaches a name when its pieces before the name are a way to the directory. -/
theorem reaches_of_way {ps : List String} (hName : IsName name)
    (hPieces : pieces path = ps ++ [name])
    (hWay : Way w.files l .directory FileTree.linkLimit (w.start path) ps)
    (hNul : '\x00' ∉ path.toList) (hShort : path.utf8ByteSize ≤ Path.lengthLimit) :
    w.Reaches l name path := by
  have hNonempty : path ≠ "" := by
    rintro rfl
    have hEmpty : pieces "" = [""] := rfl
    have hLast := congrArg List.getLast? (hEmpty.symm.trans hPieces)
    rw [List.getLast?_concat, List.getLast?_singleton, Option.some.injEq] at hLast
    exact hName.ne_empty hLast.symm
  refine ⟨?_, ?_⟩
  · apply Path.endsInSlash_eq_false
    rw [hPieces, List.getLast?_concat, ne_eq, Option.some.injEq]
    exact hName.ne_empty
  · intro hLink last
    rw [entries] at hLink ⊢
    obtain ⟨n, hn⟩ : ∃ n, w.files.walk last FileTree.linkLimit (w.start path) (ps ++ [name]) =
        w.files.walk last n l [name] := hWay.walk_append (List.cons_ne_nil name [])
    have hLinks : ∀ target, w.files.look? (l ++ [name]) ≠ some (.link target) := by
      intro target
      rw [FileTree.look?_child]
      exact hLink target
    have hWalk := hn.trans (FileTree.walk_name hWay.look?_eq hName hLinks)
    rw [FileTree.look?_child] at hWalk
    rw [place_eq_walk hNul hNonempty hShort, hPieces]
    exact hWalk

theorem nul_notMem_of_pieces (h : ∀ p ∈ pieces path, '\x00' ∉ p.toList) : '\x00' ∉ path.toList := by
  intro hMem
  rcases Path.mem_of_pieces hMem with hSlash | ⟨p, hp, hNul⟩
  · exact absurd hSlash (by decide)
  · exact h p hp hNul

/-- A name reaches itself in the directory in which one stands. -/
theorem reaches_name (hHere : w.files.look? w.here = some .directory) (hName : IsName name) :
    w.Reaches w.here name name := by
  have hPieces : pieces name = [] ++ [name] := Path.pieces_eq_singleton hName.noSlash
  have hWay : Way w.files w.here .directory FileTree.linkLimit (w.start name) [] := by
    rw [start, hName.not_isAbsolute]
    exact .done hHere
  exact reaches_of_way hName hPieces hWay hName.noNul (Nat.le_trans hName.short (by decide))

/-- The way to a directory without its end slash. -/
theorem way_base (h : w.LeadsTo directory l) :
    Way w.files l .directory FileTree.linkLimit (w.start directory)
      (pieces (Path.base directory)) := by
  obtain ⟨-, -, -, hWay⟩ := leadsTo_iff.1 h
  rcases Path.pieces_eq_base directory with hEq | hEq
  · rwa [← hEq]
  · rw [hEq] at hWay
    exact hWay.of_concat_idle rfl

theorem nul_notMem_base (h : w.LeadsTo directory l) :
    ∀ p ∈ pieces (Path.base directory), '\x00' ∉ p.toList := by
  obtain ⟨hNul, -⟩ := leadsTo_iff.1 h
  intro p hp hMem
  have hPieces : p ∈ pieces directory := by
    rcases Path.pieces_eq_base directory with hEq | hEq
    · rwa [hEq]
    · rw [hEq]
      exact List.mem_append_left _ hp
  exact hNul ((Path.of_mem_pieces hPieces).2 _ hMem)

/-- The path of a name in a directory reaches it. -/
theorem reaches_child (h : w.LeadsTo directory l) (hName : IsName name)
    (hShort : (child directory name).utf8ByteSize ≤ Path.lengthLimit) :
    w.Reaches l name (child directory name) := by
  obtain ⟨-, hNonempty, -, -⟩ := leadsTo_iff.1 h
  have hPieces := Path.pieces_child hNonempty hName
  refine reaches_of_way hName hPieces ?_ (nul_notMem_of_pieces ?_) hShort
  · rw [start, Path.isAbsolute_child hNonempty hName]
    exact way_base h
  · rw [hPieces]
    refine List.forall_mem_append.2 ⟨nul_notMem_base h, List.forall_mem_singleton.2 hName.noNul⟩

/-- With another name that is no longer, the path of a name in a directory reaches that name there,
although idle pieces may go. -/
theorem reaches_withFileName (h : w.LeadsTo directory l) (hName : IsName name)
    (hOther : IsName other) (hSize : other.utf8ByteSize ≤ name.utf8ByteSize)
    (hShort : (child directory name).utf8ByteSize ≤ Path.lengthLimit) :
    w.Reaches l other (withFileName (child directory name) other) := by
  obtain ⟨-, hNonempty, -, -⟩ := leadsTo_iff.1 h
  obtain ⟨first, middle, hBase⟩ :=
    List.exists_cons_of_ne_nil (Path.pieces_ne_nil (Path.base directory))
  obtain ⟨tail, hTail, hIdle⟩ := Text.exists_append_dropTrailing Path.isIdle middle
  have hPieces := Path.pieces_withFileName_child hNonempty hName hBase hOther
  rw [← List.cons_append] at hPieces
  have hAll : pieces (Path.base directory) =
      first :: Text.dropTrailing Path.isIdle middle ++ tail := by
    rw [hBase, List.cons_append, ← hTail]
  have hWay := way_base h
  have hNul := nul_notMem_base h
  rw [hAll] at hWay hNul
  refine reaches_of_way hOther hPieces ?_ (nul_notMem_of_pieces ?_) ?_
  · rw [start, Path.isAbsolute_withFileName_child hNonempty hName hBase hOther]
    exact hWay.of_append_idle fun p hp => hIdle p hp
  · rw [hPieces]
    refine List.forall_mem_append.2 ⟨?_, List.forall_mem_singleton.2 hOther.noNul⟩
    exact (List.forall_mem_append.1 hNul).1
  · have hLonger : pieces (child directory name) =
        first :: Text.dropTrailing Path.isIdle middle ++ tail ++ [name] := by
      rw [Path.pieces_child hNonempty hName, hAll]
    exact Nat.le_trans (Path.utf8ByteSize_le hPieces hLonger hSize) hShort

/-! ### Operations on the entries of a directory -/

theorem withoutEndSlashes_eq_self (h : endsInSlash path = false) :
    Path.withoutEndSlashes path = path := by
  have hSelf : Text.dropTrailing (· == '/') path.toList = path.toList := by
    apply Text.dropTrailing_eq_self
    intro c hc
    rw [endsInSlash, beq_eq_false_iff_ne, hc] at h
    simpa using h
  rw [Path.withoutEndSlashes, hSelf]
  split
  · rfl
  · rw [String.ofList_toList]

/-- A path that leads to a file leads to it at some location. -/
theorem exists_place_of_isFile (h : w.isFile path = true) :
    ∃ k bytes x, w.place path true = .ok (.present k (.file bytes x)) := by
  rw [isFile, entryAt] at h
  cases hPlace : w.place path true with
  | error e => simp [hPlace] at h
  | ok place =>
    cases place with
    | absent k => simp [hPlace] at h
    | present k entry =>
      cases entry with
      | file bytes x => exact ⟨k, bytes, x, rfl⟩
      | _ => simp [hPlace] at h

section Entry

variable {old : ByteArray} {executable : Bool} (h : w.Reaches l name path)
include h

/-- A file that is not there is made. -/
theorem write_new (hNone : OrderedMap.find? (w.entries l) name = none) (content : ByteArray) :
    w.write path content = .ok (w.put (l ++ [name]) (.file content false)) := by
  have hPlace := h.place_eq (by simp [hNone]) true
  rw [hNone] at hPlace
  rw [write, withoutEndSlashes_eq_self h.noEndSlash, hPlace, h.noEndSlash]
  rfl

/-- A file that is there gets other bytes. -/
theorem write_file (hFile : OrderedMap.find? (w.entries l) name = some (.file old executable))
    (content : ByteArray) :
    w.write path content = .ok (w.put (l ++ [name]) (.file content executable)) := by
  have hPlace := h.place_eq (by simp [hFile]) true
  rw [hFile] at hPlace
  rw [write, withoutEndSlashes_eq_self h.noEndSlash, hPlace, h.noEndSlash]
  rfl

theorem read_file (hFile : OrderedMap.find? (w.entries l) name = some (.file old executable)) :
    w.read path = .ok old := by
  have hPlace := h.place_eq (by simp [hFile]) true
  rw [hFile] at hPlace
  rw [read, entryAt, hPlace]

theorem delete_file (hFile : OrderedMap.find? (w.entries l) name = some (.file old executable)) :
    w.delete path = .ok { w with files := w.files.remove (l ++ [name]) } := by
  have hPlace := h.place_eq (by simp [hFile]) false
  rw [hFile] at hPlace
  rw [delete, hPlace]

/-- A file that is copied to the name of a file, or to a new one, is found there, too. -/
theorem copy_file {source : String} {k : Location} {bytes : ByteArray} {x : Bool}
    (hFrom : w.place source true = .ok (.present k (.file bytes x))) (hApart : k ≠ l ++ [name])
    (hFree : ∀ entry, OrderedMap.find? (w.entries l) name = some entry →
      ∃ old executable, entry = .file old executable) :
    ∃ v, w.copy source path = .ok v ∧ SameOutside l w v ∧
      v.entries l = OrderedMap.insert (w.entries l) name (.file bytes x) := by
  have hLink : ∀ target, OrderedMap.find? (w.entries l) name ≠ some (.link target) := by
    intro target hEntry
    obtain ⟨old, executable, hFile⟩ := hFree _ hEntry
    cases hFile
  have hPlace := h.place_eq hLink true
  have hLook := look?_of_place hFrom
  have hRoot : k ≠ [] := by
    rintro rfl
    simp [FileTree.look?] at hLook
  have hBytes : (w.put (l ++ [name]) (.file .empty x)).bytesAt k = bytes := by
    rw [bytesAt, put, FileTree.look?_put, if_neg hRoot, if_neg hApart, hLook]
  refine ⟨(w.put (l ++ [name]) (.file .empty x)).put (l ++ [name]) (.file bytes x), ?_,
    (sameOutside_put w l name _).trans (sameOutside_put _ l name _), ?_⟩
  · rw [copy, hFrom, hPlace, ← hBytes]
    cases hEntry : OrderedMap.find? (w.entries l) name with
    | none => rfl
    | some entry =>
      obtain ⟨old, executable, rfl⟩ := hFree entry hEntry
      rfl
  · rw [entries_put, entries_put, OrderedMap.insert_insert]

/-- A file that is copied to a new name is found there, too. -/
theorem copy_new {source : String} (hNone : OrderedMap.find? (w.entries l) name = none)
    (hSource : w.isFile source = true) :
    ∃ v bytes x, w.copy source path = .ok v ∧ w.entryAt source = .ok (.file bytes x) ∧
      SameOutside l w v ∧ v.entries l = OrderedMap.insert (w.entries l) name (.file bytes x) := by
  obtain ⟨k, bytes, x, hFrom⟩ := exists_place_of_isFile hSource
  have hApart : k ≠ l ++ [name] := by
    rintro rfl
    have hLook := look?_of_place hFrom
    rw [FileTree.look?_child, ← entries, hNone] at hLook
    simp at hLook
  obtain ⟨v, hCopy, hSame, hEntries⟩ := copy_file h hFrom hApart (by simp [hNone])
  exact ⟨v, bytes, x, hCopy, by rw [entryAt, hFrom], hSame, hEntries⟩

end Entry

/-! ### A directory that is filled -/

/-- A workspace in which a directory holds the given files, those it held in `w₁` among them, and
which is as it was in all else. -/
structure Filled (w₁ : Workspace) (directory : String) (l : Location)
    (files : OrderedMap String Entry) (w : Workspace) : Prop where
  leads : w₁.LeadsTo directory l
  base : w₁.entries l ⊆ files
  same : SameOutside l w₁ w
  perm : (w.entries l).Perm files
  distinct : (OrderedMap.keys files).Nodup

namespace Filled

variable {w₁ : Workspace} {files others : OrderedMap String Entry} {entry : Entry}

theorem start (hLeads : w.LeadsTo directory l) (hDistinct : (OrderedMap.keys (w.entries l)).Nodup) :
    Filled w directory l (w.entries l) w :=
  ⟨hLeads, List.Subset.refl _, .refl l w, .refl _, hDistinct⟩

theorem distinct_entries (h : Filled w₁ directory l files w) :
    (OrderedMap.keys (w.entries l)).Nodup :=
  (h.perm.map Prod.fst).nodup_iff.2 h.distinct

theorem find?_of_mem (h : Filled w₁ directory l files w) (hMem : (name, entry) ∈ files) :
    OrderedMap.find? (w.entries l) name = some entry :=
  OrderedMap.find?_of_mem h.distinct_entries (h.perm.symm.subset hMem)

theorem find?_new (h : Filled w₁ directory l files w) (hNew : name ∉ OrderedMap.keys files) :
    OrderedMap.find? (w.entries l) name = none := by
  rw [OrderedMap.find?_eq_none_iff]
  exact fun hMem => hNew ((h.perm.map Prod.fst).subset hMem)

/-- All that was there is there. -/
theorem look?_mono (h : Filled w₁ directory l files w) :
    ∀ k entry, w₁.files.look? k = some entry → w.files.look? k = some entry :=
  h.same.look?_mono fun _ _ hFind => h.find?_of_mem (h.base (OrderedMap.mem_of_find? hFind))

theorem leadsTo (h : Filled w₁ directory l files w) : w.LeadsTo directory l :=
  place_of_extends h.same.here h.look?_mono h.leads

theorem list_perm (h : Filled w₁ directory l files w) : (w.list directory).Perm files :=
  (list_of_leadsTo h.leadsTo).trans h.perm

/-- The order of the entries does not matter. -/
theorem of_perm (h : Filled w₁ directory l files w) (hPerm : files.Perm others) :
    Filled w₁ directory l others w :=
  ⟨h.leads, List.Subset.trans h.base hPerm.subset, h.same, h.perm.trans hPerm,
    (hPerm.map Prod.fst).nodup_iff.1 h.distinct⟩

/-- What is put under a new name is added. -/
theorem put_new (h : Filled w₁ directory l files w) (hNew : name ∉ OrderedMap.keys files)
    (entry : Entry) :
    Filled w₁ directory l ((name, entry) :: files) (w.put (l ++ [name]) entry) := by
  have hEntries : name ∉ OrderedMap.keys (w.entries l) :=
    fun hMem => hNew ((h.perm.map Prod.fst).subset hMem)
  refine ⟨h.leads, List.subset_cons_of_subset _ h.base,
    h.same.trans (sameOutside_put w l name entry), ?_, List.nodup_cons.2 ⟨hNew, h.distinct⟩⟩
  rw [entries_put, OrderedMap.insert_of_notMem hEntries]
  exact (List.perm_append_singleton _ _).trans (h.perm.cons _)

/-- What is put once more changes nothing. -/
theorem put_self (h : Filled w₁ directory l files w) (hMem : (name, entry) ∈ files) :
    Filled w₁ directory l files (w.put (l ++ [name]) entry) := by
  refine ⟨h.leads, h.base, h.same.trans (sameOutside_put w l name entry), ?_, h.distinct⟩
  rw [entries_put, OrderedMap.insert_eq_self (h.find?_of_mem hMem)]
  exact h.perm

section Replace

variable {old : Entry} (h : Filled w₁ directory l ((name, old) :: others) w)
  (hBase : w₁.entries l ⊆ others)
include h hBase

/-- What is put under a name that is there takes the place of the old entry. -/
theorem put_again (entry : Entry) :
    Filled w₁ directory l ((name, entry) :: others) (w.put (l ++ [name]) entry) := by
  refine ⟨h.leads, List.subset_cons_of_subset _ hBase,
    h.same.trans (sameOutside_put w l name entry), ?_, h.distinct⟩
  rw [entries_put]
  exact OrderedMap.insert_perm h.perm h.distinct_entries entry

/-- What is removed is there no more. -/
theorem remove : Filled w₁ directory l others { w with files := w.files.remove (l ++ [name]) } := by
  refine ⟨h.leads, hBase, h.same.trans (sameOutside_remove w l name), ?_, h.distinct.of_cons⟩
  change ((w.files.remove (l ++ [name])).children l).Perm others
  rw [FileTree.children_remove]
  exact OrderedMap.erase_perm h.perm h.distinct_entries

end Replace

end Filled

end Workspace

/-! ### Actions that succeed -/

namespace Action

section Sequence

variable {σ ε α β : Type} {x : ExceptT ε (StateM σ) α} {f : α → ExceptT ε (StateM σ) β} {a : α}
  {b : β} {e : ε} {w v : σ}

theorem bind_of_ok (h : x w = (.ok a, v)) : (x >>= f) w = f a v := by
  change (ExceptT.bind x f) w = _
  simp only [ExceptT.bind, ExceptT.mk, bind, StateT.bind]
  rw [h]
  rfl

theorem bind_of_error (h : x w = (.error e, v)) : (x >>= f) w = (.error e, v) := by
  change (ExceptT.bind x f) w = _
  simp only [ExceptT.bind, ExceptT.mk, bind, StateT.bind]
  rw [h]
  rfl

/-- A sequence succeeds when both of its parts do. -/
theorem of_bind_eq_ok (h : (x >>= f) w = (.ok b, v)) :
    ∃ a u, x w = (.ok a, u) ∧ f a u = (.ok b, v) := by
  rcases hx : x w with ⟨e | a, u⟩
  · rw [bind_of_error hx] at h
    exact absurd (Prod.mk.inj h).1 (by simp)
  · exact ⟨a, u, rfl, by rwa [bind_of_ok hx] at h⟩

/-- A sequence fails in its first part or in the other one after it. -/
theorem of_bind_eq_error (h : (x >>= f) w = (.error e, v)) :
    x w = (.error e, v) ∨ ∃ a u, x w = (.ok a, u) ∧ f a u = (.error e, v) := by
  rcases hx : x w with ⟨e' | a, u⟩
  · rw [bind_of_error hx] at h
    obtain ⟨hError, rfl⟩ := Prod.mk.inj h
    exact .inl (by rw [Except.error.inj hError])
  · exact .inr ⟨a, u, rfl, by rwa [bind_of_ok hx] at h⟩

end Sequence

variable {ε α : Type} {a : α} {w v : Workspace}

theorem ask_of_ok {question : Workspace → Except ε α} (h : question w = .ok a) :
    ask question w = (.ok a, w) := by
  rw [ask, h]

theorem change_of_ok {step : Workspace → Except ε Workspace} (h : step w = .ok v) :
    change step w = (.ok (), v) := by
  rw [change, h]

end Action

end KubeCompose
