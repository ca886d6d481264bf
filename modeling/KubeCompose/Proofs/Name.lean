import KubeCompose.Name
import KubeCompose.Proofs.Text
import Mathlib.Data.List.Nodup

/-!
# Laws of names

A normal form is a label or empty, and a label is its own normal form, so that normalizing twice is
normalizing once. The names that are assigned to a list of texts are their normal forms, and no two
of them are the same.
-/

namespace KubeCompose.Name

open Text (asciiLower dropTrailing)

/-! ### Normal forms -/

/-- Label characters in lower case with single dashes between them; `atDash` holds where no dash may
stand. -/
def Collapsed (atDash : Bool) : List Char → Prop
  | [] => True
  | c :: r =>
    if isLabelChar c then Collapsed false r else c = '-' ∧ atDash = false ∧ Collapsed true r

theorem asciiLower_of_isLabelChar {c : Char} (h : isLabelChar c = true) : asciiLower c = c := by
  rw [asciiLower, if_neg]
  rintro ⟨hLow, hHigh⟩
  rw [Char.le_def, UInt32.le_iff_toNat_le] at hLow hHigh
  simp only [isLabelChar, Bool.or_eq_true, Bool.and_eq_true, decide_eq_true_eq, Char.le_def,
    UInt32.le_iff_toNat_le] at h
  have hA : 'A'.val.toNat = 65 := rfl
  have hZ : 'Z'.val.toNat = 90 := rfl
  have ha : 'a'.val.toNat = 97 := rfl
  have h9 : '9'.val.toNat = 57 := rfl
  omega

theorem collapsed_collapse (atDash : Bool) (cs : List Char) :
    Collapsed atDash (collapse atDash cs) := by
  induction cs generalizing atDash with
  | nil => trivial
  | cons c r ih =>
    have hDash : isLabelChar '-' = false := by decide
    rw [collapse]
    split
    · rename_i hLabel
      rw [Collapsed, if_pos hLabel]
      exact ih false
    · split
      · rename_i hAt
        rw [hAt]
        exact ih true
      · rename_i hAt
        rw [Collapsed, hDash, if_neg Bool.false_ne_true]
        exact ⟨rfl, by simpa using hAt, ih true⟩

/-- What is collapsed stays as it is. -/
theorem collapse_eq_self {atDash : Bool} {cs : List Char} (h : Collapsed atDash cs) :
    collapse atDash cs = cs := by
  induction cs generalizing atDash with
  | nil => rfl
  | cons c r ih =>
    have hDash : isLabelChar (asciiLower '-') = false := by decide
    rw [Collapsed] at h
    split at h
    · rename_i hLabel
      rw [collapse, asciiLower_of_isLabelChar hLabel, if_pos hLabel, ih h]
    · obtain ⟨rfl, rfl, hRest⟩ := h
      rw [collapse, hDash, ih hRest]
      rfl

theorem Collapsed.left {atDash : Bool} {cs ds : List Char} (h : Collapsed atDash (cs ++ ds)) :
    Collapsed atDash cs := by
  induction cs generalizing atDash with
  | nil => trivial
  | cons c r ih =>
    rw [List.cons_append, Collapsed] at h
    rw [Collapsed]
    split at h
    · rename_i hLabel
      rw [if_pos hLabel]
      exact ih h
    · rename_i hLabel
      rw [if_neg hLabel]
      exact ⟨h.1, h.2.1, ih h.2.2⟩

/-- A collapsed text holds label characters and dashes. -/
theorem Collapsed.of_mem {atDash : Bool} {cs : List Char} (h : Collapsed atDash cs) {c : Char}
    (hc : c ∈ cs) : isLabelChar c = true ∨ c = '-' := by
  induction cs generalizing atDash with
  | nil => simp at hc
  | cons d r ih =>
    rw [Collapsed] at h
    split at h
    · rename_i hLabel
      rcases List.mem_cons.1 hc with rfl | hc
      · exact .inl hLabel
      · exact ih h hc
    · rcases List.mem_cons.1 hc with rfl | hc
      · exact .inr h.1
      · exact ih h.2.2 hc

/-- The characters of a normal form. -/
structure IsNormal (cs : List Char) : Prop where
  collapsed : Collapsed true cs
  short : cs.length ≤ maxLength
  noEndDash : cs.getLast? ≠ some '-'

theorem isNormal_normalChars (cs : List Char) : IsNormal (normalChars cs) := by
  have hCollapsed := collapsed_collapse true cs
  rw [← List.take_append_drop maxLength (collapse true cs)] at hCollapsed
  obtain ⟨tail, hTail, -⟩ :=
    Text.exists_append_dropTrailing (· == '-') ((collapse true cs).take maxLength)
  have hTake := hCollapsed.left
  rw [hTail] at hTake
  refine ⟨hTake.left, ?_, fun hDash => ?_⟩
  · have hLength := congrArg List.length hTail
    rw [List.length_append, List.length_take] at hLength
    rw [normalChars]
    omega
  · have hLast := Text.getLast?_dropTrailing hDash
    simp at hLast

/-- A normal form is its own normal form. -/
theorem normalChars_eq_self {cs : List Char} (h : IsNormal cs) : normalChars cs = cs := by
  rw [normalChars, collapse_eq_self h.collapsed, List.take_of_length_le h.short]
  apply Text.dropTrailing_eq_self
  intro c hc
  have hNe : c ≠ '-' := fun hEq => h.noEndDash (hEq ▸ hc)
  simpa using hNe

/-- Normalizing twice is normalizing once. -/
theorem normalize_idem (s : String) : normalize (normalize s) = normalize s := by
  rw [normalize, normalize, String.toList_ofList, normalChars_eq_self (isNormal_normalChars _)]

theorem of_mem_normalize {s : String} {c : Char} (h : c ∈ (normalize s).toList) :
    isLabelChar c = true ∨ c = '-' := by
  rw [normalize, String.toList_ofList] at h
  exact (isNormal_normalChars s.toList).collapsed.of_mem h

theorem length_normalize (s : String) : (normalize s).toList.length ≤ maxLength := by
  rw [normalize, String.toList_ofList]
  exact (isNormal_normalChars s.toList).short

/-- A label character or a dash is ASCII, and none of those that cut paths. -/
theorem isLabelChar_range {c : Char} (h : isLabelChar c = true ∨ c = '-') :
    c ≠ '/' ∧ c ≠ '\x00' ∧ c ≠ '_' ∧ c.utf8Size = 1 := by
  rcases h with hLabel | rfl
  · have hNot : ∀ d, isLabelChar d = false → c ≠ d := by
      rintro d hd rfl
      simp [hd] at hLabel
    refine ⟨hNot _ (by decide), hNot _ (by decide), hNot _ (by decide), ?_⟩
    simp only [isLabelChar, Bool.or_eq_true, Bool.and_eq_true, decide_eq_true_eq, Char.le_def,
      UInt32.le_iff_toNat_le] at hLabel
    have hz : 'z'.val.toNat = 122 := rfl
    have h9 : '9'.val.toNat = 57 := rfl
    have hLow : c.val ≤ 127 := by
      rw [UInt32.le_iff_toNat_le]
      change c.val.toNat ≤ 127
      omega
    exact if_pos hLow
  · decide

/-- A normal form has as many bytes as characters. -/
theorem utf8ByteSize_normalize (s : String) : (normalize s).utf8ByteSize ≤ maxLength := by
  rw [← String.ofList_toList (s := normalize s),
    Text.utf8ByteSize_ofList fun c hc => (isLabelChar_range (of_mem_normalize hc)).2.2.2]
  exact length_normalize s

/-! ### Assigned names -/

theorem ofText_eq_ok_iff {s name : String} :
    ofText s = .ok name ↔ normalize s = name ∧ name ≠ "" := by
  rw [ofText]
  by_cases h : normalize s = ""
  · simp only [h, if_true, reduceCtorEq, false_iff, not_and, not_not]
    exact fun hName => hName.symm
  · simp only [h, if_false, Except.ok.injEq]
    constructor
    · rintro rfl
      exact ⟨rfl, h⟩
    · exact fun hName => hName.1

/-- The names of a list of texts, where those in `taken` are given away. -/
structure Assigned (taken : List (String × String)) (texts : List String)
    (names : List (String × String)) : Prop where
  texts_eq : names.map (·.1) = texts
  normal : ∀ e ∈ names, normalize e.1 = e.2 ∧ e.2 ≠ ""
  fresh : ∀ e ∈ names, taken.lookup e.2 = none
  distinct : (names.map (·.2)).Nodup

theorem Assigned.cons {taken names : List (String × String)} {texts : List String} {s name : String}
    (hName : ofText s = .ok name) (hFree : taken.lookup name = none)
    (h : Assigned ((name, s) :: taken) texts names) :
    Assigned taken (s :: texts) ((s, name) :: names) := by
  have hOther : ∀ e ∈ names, e.2 ≠ name ∧ taken.lookup e.2 = none := by
    intro e he
    have hFresh := h.fresh e he
    rw [List.lookup_cons] at hFresh
    split at hFresh
    · exact absurd hFresh (by simp)
    · rename_i hBeq
      exact ⟨by simpa using hBeq, hFresh⟩
  refine ⟨by rw [List.map_cons, h.texts_eq], ?_, ?_, ?_⟩
  · exact List.forall_mem_cons.2 ⟨ofText_eq_ok_iff.1 hName, h.normal⟩
  · exact List.forall_mem_cons.2 ⟨hFree, fun e he => (hOther e he).2⟩
  · rw [List.map_cons, List.nodup_cons]
    refine ⟨fun hMem => ?_, h.distinct⟩
    obtain ⟨e, he, hEq⟩ := List.mem_map.1 hMem
    exact (hOther e he).1 hEq

theorem assigned_assignFrom {texts : List String} :
    ∀ {taken names : List (String × String)}, assignFrom taken texts = .ok names →
      Assigned taken texts names := by
  induction texts with
  | nil =>
    intro taken names h
    obtain rfl : [] = names := by simpa [assignFrom] using h
    exact ⟨rfl, by simp, by simp, List.nodup_nil⟩
  | cons s rest ih =>
    intro taken names h
    rw [assignFrom] at h
    cases hName : ofText s with
    | error e => simp [hName, bind, Except.bind] at h
    | ok name =>
      cases hTaken : taken.lookup name with
      | some first =>
        simp [hName, hTaken, bind, Except.bind, throw, throwThe, MonadExceptOf.throw] at h
      | none =>
        cases hRest : assignFrom ((name, s) :: taken) rest with
        | error e => simp [hName, hTaken, hRest, bind, Except.bind] at h
        | ok names' =>
          obtain rfl : (s, name) :: names' = names := by
            simpa [hName, hTaken, hRest, bind, Except.bind, pure, Except.pure] using h
          exact .cons hName hTaken (ih hRest)

/-- Names that are assigned are the normal forms of their texts, and no two are the same. -/
theorem assigned_assign {texts : List String} {names : List (String × String)}
    (h : assign texts = .ok names) : Assigned [] texts names :=
  assigned_assignFrom h

/-- The names that are assigned are known from the texts. -/
theorem Assigned.eq_map {taken names : List (String × String)} {texts : List String}
    (h : Assigned taken texts names) : names = texts.map fun s => (s, normalize s) := by
  rw [← h.texts_eq, List.map_map]
  have hSelf : names.map id = names.map ((fun s => (s, normalize s)) ∘ (·.1)) := by
    refine List.map_congr_left fun e he => ?_
    exact Prod.ext rfl (h.normal e he).1.symm
  rwa [List.map_id] at hSelf

/-- Names are given to texts with different normal forms, none of them empty or given away. -/
theorem assignFrom_eq_ok {texts : List String} :
    ∀ {taken : List (String × String)},
      (∀ s ∈ texts, normalize s ≠ "" ∧ taken.lookup (normalize s) = none) →
      (texts.map normalize).Nodup →
      assignFrom taken texts = .ok (texts.map fun s => (s, normalize s)) := by
  induction texts with
  | nil => exact fun _ _ => rfl
  | cons s rest ih =>
    intro taken hFree hDistinct
    obtain ⟨⟨hName, hTaken⟩, hRest⟩ := List.forall_mem_cons.1 hFree
    rw [List.map_cons, List.nodup_cons] at hDistinct
    have hLater : ∀ t ∈ rest,
        normalize t ≠ "" ∧ ((normalize s, s) :: taken).lookup (normalize t) = none := by
      intro t ht
      have hNe : (normalize t == normalize s) = false :=
        beq_false_of_ne fun hSame => hDistinct.1 (hSame ▸ List.mem_map_of_mem ht)
      refine ⟨(hRest t ht).1, ?_⟩
      rw [List.lookup_cons, hNe]
      exact (hRest t ht).2
    have hText : ofText s = .ok (normalize s) := ofText_eq_ok_iff.2 ⟨rfl, hName⟩
    rw [assignFrom, hText]
    simp only [bind, Except.bind, hTaken, ih hLater hDistinct.2]
    rfl

/-- Names are assigned exactly when no normal form is empty and no two are the same. -/
theorem assign_eq_ok_iff {texts : List String} {names : List (String × String)} :
    assign texts = .ok names ↔
      (∀ s ∈ texts, normalize s ≠ "") ∧ (texts.map normalize).Nodup ∧
        names = texts.map fun s => (s, normalize s) := by
  constructor
  · intro h
    have hAssigned := assigned_assign h
    have hEq := hAssigned.eq_map
    refine ⟨fun s hs => ?_, ?_, hEq⟩
    · have hMem : (s, normalize s) ∈ names := hEq ▸ List.mem_map_of_mem hs
      exact (hAssigned.normal _ hMem).2
    · have hDistinct := hAssigned.distinct
      rw [hEq, List.map_map] at hDistinct
      exact hDistinct
  · rintro ⟨hNames, hDistinct, rfl⟩
    exact assignFrom_eq_ok (fun s hs => ⟨hNames s hs, rfl⟩) hDistinct

end KubeCompose.Name
