import KubeCompose.FileTree.Path
import KubeCompose.Proofs.Text
import Mathlib.Data.List.Basic

/-!
# Laws of paths

A path is its pieces joined by slashes, so that what is said about paths is shown on pieces. The
path of an entry of a directory has the pieces of the directory and then the name; with another
name in its place, idle pieces before the name may go.
-/

namespace KubeCompose.Path

open Text (splitOn dropTrailing join)

variable {path directory name other : String}

/-! ### Pieces -/

theorem pieces_ne_nil (path : String) : pieces path ≠ [] := by
  rw [pieces, ne_eq, List.map_eq_nil_iff]
  exact Text.splitOn_ne_nil '/' path.toList

theorem pieces_append (path name : String) :
    pieces (path ++ "/" ++ name) = pieces path ++ pieces name := by
  have hChars : (path ++ "/" ++ name).toList = path.toList ++ '/' :: name.toList := by simp
  rw [pieces, hChars, Text.splitOn_append_sep, List.map_append]
  rfl

/-- A text without slashes is its only piece. -/
theorem pieces_eq_singleton (h : '/' ∉ name.toList) : pieces name = [name] := by
  rw [pieces, Text.splitOn_eq_singleton h, List.map_singleton, String.ofList_toList]

theorem of_mem_pieces (h : name ∈ pieces path) :
    '/' ∉ name.toList ∧ ∀ c ∈ name.toList, c ∈ path.toList := by
  obtain ⟨piece, hPiece, rfl⟩ := List.mem_map.1 h
  simpa using Text.of_mem_splitOn hPiece

/-- A path is its pieces joined. -/
theorem join_pieces (path : String) : join "/" (pieces path) = path := by
  have hChars : ∀ cs : List Char,
      join "/" ((splitOn '/' cs).map String.ofList) = String.ofList cs := by
    intro cs
    induction cs with
    | nil => rfl
    | cons c r ih =>
      have hNonempty : (splitOn '/' r).map String.ofList ≠ [] := by
        simpa using Text.splitOn_ne_nil '/' r
      rw [splitOn]
      split
      · rename_i hc
        rw [List.map_cons, Text.join_cons _ hNonempty, ih, ← String.toList_inj]
        simp [hc]
      · cases h : splitOn '/' r with
        | nil => exact absurd h (Text.splitOn_ne_nil '/' r)
        | cons piece rest =>
          rw [h, List.map_cons] at ih
          rw [← String.toList_inj] at ih ⊢
          cases rest with
          | nil => simpa [join] using ih
          | cons next rest => simpa [join] using ih
  rw [pieces, hChars, String.ofList_toList]

/-- The pieces of a joined path are those that were joined. -/
theorem pieces_join {ps : List String} (hNonempty : ps ≠ []) (h : ∀ p ∈ ps, '/' ∉ p.toList) :
    pieces (join "/" ps) = ps := by
  induction ps with
  | nil => exact absurd rfl hNonempty
  | cons p r ih =>
    obtain ⟨hp, hr⟩ := List.forall_mem_cons.1 h
    cases r with
    | nil => exact pieces_eq_singleton hp
    | cons q s =>
      rw [Text.join_cons p (by simp), pieces_append, pieces_eq_singleton hp, ih (by simp) hr]
      rfl

/-- The bytes of pieces, each with a slash behind it. -/
def bytesOf : List String → Nat
  | [] => 0
  | p :: r => p.utf8ByteSize + 1 + bytesOf r

theorem bytesOf_append (ps qs : List String) : bytesOf (ps ++ qs) = bytesOf ps + bytesOf qs := by
  induction ps with
  | nil => simp [bytesOf]
  | cons p r ih => simp [bytesOf, ih, Nat.add_assoc]

/-- A joined path has a slash behind each of its pieces but the last. -/
theorem utf8ByteSize_join {ps : List String} (h : ps ≠ []) :
    (join "/" ps).utf8ByteSize + 1 = bytesOf ps := by
  induction ps with
  | nil => exact absurd rfl h
  | cons p r ih =>
    cases r with
    | nil => simp [join, bytesOf]
    | cons q s =>
      have hSlash : "/".utf8ByteSize = 1 := rfl
      rw [Text.join_cons p (by simp), String.utf8ByteSize_append, String.utf8ByteSize_append,
        bytesOf, ← ih (by simp)]
      omega

/-- A path begins at the root when its first piece is empty and not its only one. -/
theorem isAbsolute_iff : isAbsolute path = true ↔ ∃ rest, rest ≠ [] ∧ pieces path = "" :: rest := by
  rw [isAbsolute, pieces]
  cases h : path.toList with
  | nil => simp [splitOn]
  | cons c r =>
    by_cases hc : c = '/'
    · subst hc
      simp [Text.splitOn_cons_sep, Text.splitOn_ne_nil]
    · rw [splitOn, if_neg hc]
      cases hr : splitOn '/' r with
      | nil => exact absurd hr (Text.splitOn_ne_nil '/' r)
      | cons piece rest =>
        simp [hc]

/-! ### Names in a directory -/

/-- A text that can name an entry of a directory. -/
structure IsName (name : String) : Prop where
  noSlash : '/' ∉ name.toList
  noNul : '\x00' ∉ name.toList
  notIdle : isIdle name = false
  notUp : name ≠ ".."
  short : name.utf8ByteSize ≤ pieceLimit

theorem IsName.ne_empty (h : IsName name) : name ≠ "" := by
  rintro rfl
  simpa [isIdle] using h.notIdle

theorem IsName.not_isAbsolute (h : IsName name) : isAbsolute name = false := by
  rw [isAbsolute, beq_eq_false_iff_ne]
  exact fun hHead => h.noSlash (List.mem_of_head? hHead)

/-- What stands before the slash before a name in a directory. -/
def base (directory : String) : String :=
  if endsInSlash directory then String.ofList directory.toList.dropLast else directory

theorem eq_base_append (h : endsInSlash directory = true) : directory = base directory ++ "/" := by
  rw [base, if_pos h]
  rw [endsInSlash, beq_iff_eq] at h
  rw [← String.toList_inj]
  simp [List.dropLast_append_getLast? _ h]

theorem child_eq (hDirectory : directory ≠ "") (h : IsName name) :
    child directory name = base directory ++ "/" ++ name := by
  have hEmpty : (directory == "") = false := by simpa using hDirectory
  rw [child, h.not_isAbsolute, hEmpty, Bool.or_self, if_neg Bool.false_ne_true]
  split
  · rename_i hSlash
    conv_lhs => rw [eq_base_append hSlash]
  · rename_i hSlash
    rw [base, if_neg hSlash]

theorem pieces_child (hDirectory : directory ≠ "") (h : IsName name) :
    pieces (child directory name) = pieces (base directory) ++ [name] := by
  rw [child_eq hDirectory h, pieces_append, pieces_eq_singleton h.noSlash]

/-- Behind its end slash a path has an empty piece. -/
theorem pieces_of_endsInSlash (h : endsInSlash path = true) :
    pieces path = pieces (base path) ++ [""] := by
  conv_lhs => rw [eq_base_append h, ← String.append_empty (s := base path ++ "/")]
  rw [pieces_append]
  rfl

/-- The pieces of a directory are those before a name, with an empty one behind its end slash. -/
theorem pieces_eq_base (directory : String) :
    pieces directory = pieces (base directory) ∨
      pieces directory = pieces (base directory) ++ [""] := by
  by_cases h : endsInSlash directory = true
  · exact .inr (pieces_of_endsInSlash h)
  · left
    rw [base, if_neg h]

/-- A path whose last piece is not empty has no end slash. -/
theorem endsInSlash_eq_false (h : (pieces path).getLast? ≠ some "") : endsInSlash path = false := by
  by_contra hSlash
  rw [Bool.not_eq_false] at hSlash
  refine h ?_
  rw [pieces_of_endsInSlash hSlash, List.getLast?_concat]

/-- A path that goes on begins as it began. -/
theorem isAbsolute_append (hPath : path ≠ "") (rest : String) :
    isAbsolute (path ++ rest) = isAbsolute path := by
  have hChars : path.toList ≠ [] := by simpa [String.toList_eq_nil_iff] using hPath
  rw [isAbsolute, isAbsolute, String.toList_append, List.head?_append_of_ne_nil _ hChars]

/-- The path of a shorter name is shorter. -/
theorem utf8ByteSize_child_le (hDirectory : directory ≠ "") (h : IsName name)
    (hOther : IsName other) (hSize : other.utf8ByteSize ≤ name.utf8ByteSize) :
    (child directory other).utf8ByteSize ≤ (child directory name).utf8ByteSize := by
  rw [child_eq hDirectory h, child_eq hDirectory hOther]
  simp only [String.utf8ByteSize_append]
  omega

theorem utf8ByteSize_le_child (hDirectory : directory ≠ "") (h : IsName name) :
    directory.utf8ByteSize ≤ (child directory name).utf8ByteSize := by
  rw [child_eq hDirectory h, String.utf8ByteSize_append]
  refine Nat.le_trans ?_ (Nat.le_add_right _ _)
  by_cases hSlash : endsInSlash directory = true
  · exact Nat.le_of_eq (congrArg String.utf8ByteSize (eq_base_append hSlash))
  · rw [base, if_neg hSlash, String.utf8ByteSize_append]
    exact Nat.le_add_right _ _

theorem isAbsolute_child (hDirectory : directory ≠ "") (h : IsName name) :
    isAbsolute (child directory name) = isAbsolute directory := by
  have hEmpty : (directory == "") = false := by simpa using hDirectory
  rw [child, h.not_isAbsolute, hEmpty, Bool.or_self, if_neg Bool.false_ne_true]
  split
  · exact isAbsolute_append hDirectory name
  · rw [String.append_assoc]
    exact isAbsolute_append hDirectory _

/-- Before a name no idle piece is dropped. -/
theorem dropTrailing_concat (h : IsName name) (ps : List String) :
    dropTrailing isIdle (ps ++ [name]) = ps ++ [name] := by
  apply Text.dropTrailing_eq_self
  intro c hc
  rw [List.getLast?_concat, Option.some.injEq] at hc
  rw [← hc, h.notIdle]

section Base

variable {first : String} {middle : List String} (hDirectory : directory ≠ "") (h : IsName name)
  (hBase : pieces (base directory) = first :: middle)
include hDirectory h hBase

theorem significant_child : significant (child directory name) = first :: (middle ++ [name]) := by
  rw [significant, pieces_child hDirectory h, hBase, List.cons_append]
  change first :: dropTrailing isIdle (middle ++ [name]) = _
  rw [dropTrailing_concat h]

theorem fileName?_child : fileName? (child directory name) = some name := by
  rw [fileName?, significant_child hDirectory h hBase, ← List.cons_append, List.getLast?_concat]
  simp [h.notIdle, h.notUp]

theorem parent?_child :
    parent? (child directory name) =
      some
        (if isAbsolute directory && (dropTrailing isIdle middle).isEmpty then "/"
         else join "/" (first :: dropTrailing isIdle middle)) := by
  have hRest : (middle ++ [name]).isEmpty = false := by simp
  rw [parent?, significant_child hDirectory h hBase, isAbsolute_child hDirectory h]
  simp only [hRest, Bool.false_eq_true, if_false, List.dropLast_concat]
  split <;> rfl

/-- A directory begins at the root exactly when its first piece is empty. -/
theorem isAbsolute_iff_first : isAbsolute directory = true ↔ first = "" := by
  rw [← isAbsolute_child hDirectory h, isAbsolute_iff, pieces_child hDirectory h, hBase]
  simp

/-- The directory in which a path gets another name has the pieces of its own directory, without
the idle ones at their end. -/
theorem pieces_base_parent {above : String} (hAbove : parent? (child directory name) = some above) :
    above ≠ "" ∧ pieces (base above) = first :: dropTrailing isIdle middle := by
  rw [parent?_child hDirectory h hBase, Option.some.injEq] at hAbove
  have hFirst := isAbsolute_iff_first hDirectory h hBase
  split at hAbove
  · rename_i hRoot
    rw [Bool.and_eq_true, List.isEmpty_iff] at hRoot
    subst hAbove
    refine ⟨by decide, ?_⟩
    rw [hRoot.2, hFirst.1 hRoot.1]
    decide
  · rename_i hRoot
    have hNoSlash : ∀ p ∈ first :: dropTrailing isIdle middle, '/' ∉ p.toList := by
      obtain ⟨tail, hTail, -⟩ := Text.exists_append_dropTrailing isIdle middle
      intro p hp
      have hMem : p ∈ pieces (base directory) := by
        rw [hBase, hTail, ← List.cons_append]
        exact List.mem_append_left tail hp
      exact (of_mem_pieces hMem).1
    have hPieces : pieces above = first :: dropTrailing isIdle middle := by
      rw [← hAbove, pieces_join (by simp) hNoSlash]
    have hNonempty : above ≠ "" := by
      rintro rfl
      have hEmpty : pieces "" = [""] := rfl
      rw [hEmpty, List.cons.injEq] at hPieces
      refine hRoot ?_
      rw [hFirst.2 hPieces.1.symm, ← hPieces.2]
      rfl
    have hLast : (pieces above).getLast? ≠ some "" := by
      rw [hPieces]
      cases hMiddle : dropTrailing isIdle middle with
      | nil =>
        rw [hMiddle] at hPieces
        intro hEmpty
        have hOnly : some first = some "" := hEmpty
        refine hNonempty ?_
        rw [← join_pieces above, hPieces, Option.some.inj hOnly]
        rfl
      | cons p ps =>
        intro hEmpty
        rw [List.getLast?_cons_cons, ← hMiddle] at hEmpty
        have hIdle := Text.getLast?_dropTrailing hEmpty
        simp [isIdle] at hIdle
    refine ⟨hNonempty, ?_⟩
    rw [base, if_neg (by simp [endsInSlash_eq_false hLast]), hPieces]

/-- With another name in the place of the last piece, a path has the pieces of the directory
without the idle ones at their end, and then that name. -/
theorem pieces_withFileName_child (hOther : IsName other) :
    pieces (withFileName (child directory name) other) =
      first :: (dropTrailing isIdle middle ++ [other]) := by
  obtain ⟨above, hAbove⟩ : ∃ above, parent? (child directory name) = some above :=
    ⟨_, parent?_child hDirectory h hBase⟩
  obtain ⟨hNonempty, hPieces⟩ := pieces_base_parent hDirectory h hBase hAbove
  rw [withFileName, fileName?_child hDirectory h hBase, hAbove]
  change pieces (child above other) = _
  rw [pieces_child hNonempty hOther, hPieces, List.cons_append]

theorem isAbsolute_withFileName_child (hOther : IsName other) :
    isAbsolute (withFileName (child directory name) other) = isAbsolute directory := by
  rw [Bool.eq_iff_iff, isAbsolute_iff, isAbsolute_iff_first hDirectory h hBase,
    pieces_withFileName_child hDirectory h hBase hOther]
  simp

end Base

/-- A path is its significant pieces and idle ones, which a name stands before. -/
theorem exists_significant (path : String) :
    ∃ first rest tail, pieces path = first :: rest ++ tail ∧ significant path = first :: rest ∧
      (∀ p ∈ tail, isIdle p = true) ∧ ∀ last, rest.getLast? = some last → isIdle last = false := by
  obtain ⟨first, rest, hPieces⟩ := List.exists_cons_of_ne_nil (pieces_ne_nil path)
  obtain ⟨tail, hTail, hIdle⟩ := Text.exists_append_dropTrailing isIdle rest
  refine ⟨first, dropTrailing isIdle rest, tail, ?_, ?_, hIdle, fun last hLast => ?_⟩
  · rw [hPieces, List.cons_append, ← hTail]
  · rw [significant, hPieces]
  · exact Text.getLast?_dropTrailing hLast

/-- A path that goes on with further pieces begins as it began. -/
theorem isAbsolute_of_pieces {above : String} {more : List String}
    (hPieces : pieces path = pieces above ++ more) (hMore : more ≠ []) (hAbove : above ≠ "") :
    isAbsolute above = isAbsolute path := by
  obtain ⟨first, up, hUp⟩ := List.exists_cons_of_ne_nil (pieces_ne_nil above)
  rw [Bool.eq_iff_iff, isAbsolute_iff, isAbsolute_iff, hPieces, hUp]
  constructor
  · rintro ⟨rest, -, hEq⟩
    exact ⟨up ++ more, by simp [hMore], by rw [(List.cons.inj hEq).1, List.cons_append]⟩
  · rintro ⟨rest, -, hEq⟩
    have hFirst : first = "" := (List.cons.inj hEq).1
    refine ⟨up, fun hNil => hAbove ?_, by rw [hFirst]⟩
    rw [← join_pieces above, hUp, hNil, hFirst]
    rfl

/-- What a path holds is held by one of its pieces, or is a slash. -/
theorem mem_of_pieces {c : Char} (h : c ∈ path.toList) :
    c = '/' ∨ ∃ p ∈ pieces path, c ∈ p.toList := by
  rw [← join_pieces path] at h
  refine (Text.mem_join h).imp_left fun hSlash => ?_
  simpa using hSlash

/-- A path that begins with the same pieces as another, and has a name of at most the same size, is
no longer. -/
theorem utf8ByteSize_le {longer : String} {ps qs : List String} (hPs : pieces path = ps ++ [other])
    (hQs : pieces longer = ps ++ qs ++ [name]) (hSize : other.utf8ByteSize ≤ name.utf8ByteSize) :
    path.utf8ByteSize ≤ longer.utf8ByteSize := by
  have hPath := utf8ByteSize_join (pieces_ne_nil path)
  have hLonger := utf8ByteSize_join (pieces_ne_nil longer)
  rw [join_pieces, hPs, bytesOf_append, bytesOf, bytesOf] at hPath
  rw [join_pieces, hQs, bytesOf_append, bytesOf_append, bytesOf, bytesOf] at hLonger
  omega

end KubeCompose.Path
