import KubeCompose.Manifest.Directory
import KubeCompose.Proofs.Skeleton
import Mathlib.Data.String.Basic
import Mathlib.Logic.Function.Basic

/-!
# Folders

A folder is what stands under the names of one directory. In a plain directory, which holds files
and directories under names that can be given, an operation on the path of a name is one on the
folder, and the directory stays plain.
-/

namespace KubeCompose

open KubeCompose.Path (IsName child withFileName)

/-- What stands under each name of a directory. -/
abbrev Folder := String → Option Entry

namespace Folder

variable {f : Folder} {name : String}

/-- Whether a directory stands under a name. -/
def hasDirectory (f : Folder) (name : String) : Bool :=
  match f name with
  | some .directory => true
  | _ => false

/-- Whether the file under a name can be run. -/
def isExecutable (f : Folder) (name : String) : Bool :=
  match f name with
  | some (.file _ executable) => executable
  | _ => false

theorem hasDirectory_iff : f.hasDirectory name = true ↔ f name = some .directory := by
  rw [hasDirectory]
  split
  · rename_i hEq
    simp [hEq]
  · rename_i hNe
    simpa using hNe

end Folder

namespace Workspace

variable {w v : Workspace} {directory path name other : String} {l : Location} {entry : Entry}

/-- The folder of the directory at a location. -/
def folder (w : Workspace) (l : Location) : Folder := OrderedMap.find? (w.entries l)

theorem look?_folder (w : Workspace) (l : Location) (name : String) :
    w.files.look? (l ++ [name]) = w.folder l name := FileTree.look?_child w.files l name

theorem folder_put (w : Workspace) (l : Location) (name : String) (entry : Entry) :
    (w.put (l ++ [name]) entry).folder l = Function.update (w.folder l) name (some entry) := by
  funext other
  rw [folder, entries_put, OrderedMap.find?_insert, Function.update_apply]
  simp only [beq_iff_eq]
  rfl

theorem folder_remove (w : Workspace) (l : Location) (name : String) :
    ({ w with files := w.files.remove (l ++ [name]) } : Workspace).folder l =
      Function.update (w.folder l) name none := by
  funext other
  have hEntries : ({ w with files := w.files.remove (l ++ [name]) } : Workspace).entries l =
      OrderedMap.erase (w.entries l) name := FileTree.children_remove w.files l name
  rw [folder, hEntries, OrderedMap.find?_erase, Function.update_apply]
  simp only [beq_iff_eq]
  rfl

/-- A name that can be given to an entry of a directory: its path is not too long for a call. -/
structure Fits (directory name : String) : Prop where
  isName : IsName name
  short : (child directory name).utf8ByteSize ≤ Path.lengthLimit

/-- A path leads to a directory that holds files and directories under names that can be given. -/
structure Plain (w : Workspace) (directory : String) (l : Location) : Prop where
  leads : w.LeadsTo directory l
  distinct : (OrderedMap.keys (w.entries l)).Nodup
  fits : ∀ name entry, w.folder l name = some entry → Fits directory name
  noLink : ∀ name target, w.folder l name ≠ some (.link target)

namespace Plain

variable (h : w.Plain directory l)
include h

theorem nonempty : directory ≠ "" := (leadsTo_iff.1 h.leads).2.1

theorem isFile_of_ne_directory (hNo : w.folder l name ≠ some .directory) :
    ∀ e, w.files.look? (l ++ [name]) = some e → e.IsFile := by
  intro e he
  rw [look?_folder] at he
  cases e with
  | directory => exact absurd he hNo
  | link target => exact absurd he (h.noLink name target)
  | file content executable => exact ⟨content, executable, rfl⟩

/-- The directory stays plain when a file gets a place that is not a directory's. -/
theorem put (hFits : Fits directory name) (hNo : w.folder l name ≠ some .directory)
    (content : ByteArray) (executable : Bool) :
    (w.put (l ++ [name]) (.file content executable)).Plain directory l where
  leads := h.leads.of_skeletonIn rfl
    (FileTree.skeletonIn_put (h.isFile_of_ne_directory hNo) _)
  distinct := by
    rw [entries_put]
    exact OrderedMap.nodup_keys_insert h.distinct name _
  fits other entry hEntry := by
    rw [folder_put, Function.update_apply] at hEntry
    split at hEntry
    · rename_i hSame
      rwa [hSame]
    · exact h.fits other entry hEntry
  noLink other target hLink := by
    rw [folder_put, Function.update_apply] at hLink
    split at hLink
    · simp at hLink
    · exact h.noLink other target hLink

/-- The directory stays plain when a file is taken away. -/
theorem remove (hNo : w.folder l name ≠ some .directory) :
    ({ w with files := w.files.remove (l ++ [name]) } : Workspace).Plain directory l where
  leads := h.leads.of_skeletonIn rfl
    (FileTree.skeletonIn_remove (h.isFile_of_ne_directory hNo))
  distinct := by
    change (OrderedMap.keys ((w.files.remove (l ++ [name])).children l)).Nodup
    rw [FileTree.children_remove, OrderedMap.erase_eq_filter]
    exact (List.filter_sublist.map _).nodup h.distinct
  fits other entry hEntry := by
    rw [folder_remove, Function.update_apply] at hEntry
    split at hEntry
    · simp at hEntry
    · exact h.fits other entry hEntry
  noLink other target hLink := by
    rw [folder_remove, Function.update_apply] at hLink
    split at hLink
    · simp at hLink
    · exact h.noLink other target hLink

/-- The path of a name in the directory reaches it. -/
theorem reaches (hFits : Fits directory name) : w.Reaches l name (child directory name) :=
  reaches_child h.leads hFits.isName hFits.short

theorem fits_of_size (hFits : Fits directory name) (hOther : IsName other)
    (hSize : other.utf8ByteSize ≤ name.utf8ByteSize) : Fits directory other :=
  ⟨hOther, Nat.le_trans (Path.utf8ByteSize_child_le h.nonempty hFits.isName hOther hSize)
    hFits.short⟩

/-- With a name that is no longer, the path of a name in the directory reaches that name. -/
theorem reaches_other (hFits : Fits directory name) (hOther : IsName other)
    (hSize : other.utf8ByteSize ≤ name.utf8ByteSize) :
    w.Reaches l other (withFileName (child directory name) other) :=
  reaches_withFileName h.leads hFits.isName hOther hSize hFits.short

theorem fileName?_child (hName : IsName name) :
    Path.fileName? (child directory name) = some name := by
  obtain ⟨first, middle, hBase⟩ :=
    List.exists_cons_of_ne_nil (Path.pieces_ne_nil (Path.base directory))
  exact Path.fileName?_child h.nonempty hName hBase

end Plain

/-! ### Operations on a folder -/

section Operations

variable (hNoLink : ∀ target, w.folder l name ≠ some (.link target))
  (hReaches : w.Reaches l name path)
include hNoLink hReaches

/-- Bytes that are written go into the file under the name, which is made where there is none. -/
theorem write_of_reaches (content : ByteArray) :
    w.write path content =
      if (w.folder l).hasDirectory name then .error .isDirectory
      else .ok (w.put (l ++ [name]) (.file content ((w.folder l).isExecutable name))) := by
  have hPlace := hReaches.place_eq hNoLink true
  rw [write, withoutEndSlashes_eq_self hReaches.noEndSlash, hPlace, hReaches.noEndSlash,
    Folder.hasDirectory, Folder.isExecutable, folder]
  cases hEntry : OrderedMap.find? (w.entries l) name with
  | none => rfl
  | some entry =>
    cases entry with
    | link target => exact absurd hEntry (hNoLink target)
    | _ => rfl

theorem exists?_of_reaches : w.exists? path = (w.folder l name).isSome := by
  have hPlace := hReaches.place_eq hNoLink true
  rw [exists?, entryAt, hPlace, folder]
  cases hEntry : OrderedMap.find? (w.entries l) name <;> rfl

end Operations

/-! ### A home with entries in it -/

instance (name : String) : Decidable (IsName name) :=
  decidable_of_iff
    ('/' ∉ name.toList ∧ '\x00' ∉ name.toList ∧ Path.isIdle name = false ∧ name ≠ ".." ∧
      name.utf8ByteSize ≤ Path.pieceLimit)
    ⟨fun h => ⟨h.1, h.2.1, h.2.2.1, h.2.2.2.1, h.2.2.2.2⟩,
      fun h => ⟨h.noSlash, h.noNul, h.notIdle, h.notUp, h.short⟩⟩

instance (directory name : String) : Decidable (Fits directory name) :=
  decidable_of_iff
    (IsName name ∧ (child directory name).utf8ByteSize ≤ Path.lengthLimit)
    ⟨fun h => ⟨h.1, h.2⟩, fun h => ⟨h.isName, h.short⟩⟩

/-- A workspace with nothing but the directory in which one stands and its entries. -/
def homeWith (entries : List (String × Entry)) : Workspace :=
  ⟨(["home"], .directory) :: entries.map fun e => (["home", e.1], e.2), ["home"]⟩

theorem entries_homeWith (es : List (String × Entry)) : (homeWith es).entries ["home"] = es := by
  have hChildren : FileTree.children (es.map fun e => (["home", e.1], e.2)) ["home"] = es := by
    induction es with
    | nil => rfl
    | cons e es ih => exact (FileTree.children_cons_child _ ["home"] e.1 e.2).trans (by rw [ih])
  have hHome : ∀ name, (["home"] : Location) ≠ ["home"] ++ [name] := by simp
  rw [entries, homeWith, FileTree.children_cons_other hHome, hChildren]

/-- A home is plain when its entries are files and directories under names that can be given. -/
theorem plain_homeWith {es : List (String × Entry)} (hDistinct : (OrderedMap.keys es).Nodup)
    (hFits : ∀ e ∈ es, Fits "." e.1) (hNoLink : ∀ e ∈ es, ∀ target, e.2 ≠ .link target) :
    (homeWith es).Plain "." ["home"] := by
  have hEntries := entries_homeWith es
  refine ⟨?_, by rwa [hEntries], fun name entry hEntry => ?_, fun name target hLink => ?_⟩
  · have hPieces : Path.pieces "." = ["."] := by decide
    refine leadsTo_iff.2 ⟨by decide, by decide, by decide, ?_⟩
    rw [hPieces]
    exact .idle rfl rfl (.done rfl)
  · rw [folder, hEntries] at hEntry
    exact hFits _ (OrderedMap.mem_of_find? hEntry)
  · rw [folder, hEntries] at hLink
    exact hNoLink _ (OrderedMap.mem_of_find? hLink) target rfl

end Workspace

end KubeCompose
