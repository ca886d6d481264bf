import KubeCompose.Proofs.Name
import Mathlib.Data.List.DropRight

/-!
# Normal forms as runs of letters and digits

The loop that normalizes a text keeps one bit, whether a dash may follow. What it computes is said
here without it: the runs of letters and digits in lower case, joined by single dashes and cut at
the longest name. The loop can write a dash at the end that no run follows, and the cut can come
behind a dash; both are dropped, so that a normal form is empty or a label.
-/

namespace KubeCompose

/-! ### Lists of texts -/

namespace Text

variable {α : Type}

/-- What is left is what the library leaves when it drops from the right. -/
theorem dropTrailing_eq_rdropWhile (p : α → Bool) (cs : List α) :
    dropTrailing p cs = cs.rdropWhile p := by
  obtain ⟨tail, hTail, hAll⟩ := exists_append_dropTrailing p cs
  have hSelf : (dropTrailing p cs).rdropWhile p = dropTrailing p cs := by
    rw [List.rdropWhile_eq_self_iff]
    intro hne
    have hLast := getLast?_dropTrailing (List.getLast?_eq_some_getLast hne)
    simp [hLast]
  conv_rhs => rw [hTail]
  rw [List.rdropWhile, List.reverse_append, List.dropWhile_append_of_pos (by simpa using hAll)]
  exact hSelf.symm

/-- Two lists are joined by joining what each is joined to. -/
theorem intercalate_append_of_ne_nil {sep : List α} {xs ys : List (List α)} (hx : xs ≠ [])
    (hy : ys ≠ []) :
    sep.intercalate (xs ++ ys) = sep.intercalate xs ++ (sep ++ sep.intercalate ys) := by
  induction xs with
  | nil => exact absurd rfl hx
  | cons x rest ih =>
    by_cases hRest : rest = []
    · rw [hRest, List.singleton_append, List.intercalate_singleton,
        List.intercalate_cons_of_ne_nil hy, List.append_assoc]
    · have hAppend : rest ++ ys ≠ [] := List.append_ne_nil_of_left_ne_nil hRest ys
      rw [List.cons_append, List.intercalate_cons_of_ne_nil hAppend, ih hRest,
        List.intercalate_cons_of_ne_nil hRest]
      simp only [List.append_assoc]

end Text

namespace Name

open Text (asciiLower dropTrailing)

/-! ### Runs -/

/-- The maximal runs of letters and digits of a text, in lower case. -/
def runs (cs : List Char) : List (List Char) :=
  ((cs.map Char.toLower).splitOnP fun c => !(c.isLower || c.isDigit)).filter fun run => !run.isEmpty

/-- The runs of a text with single dashes between them. -/
def joined (cs : List Char) : List Char := ['-'].intercalate (runs cs)

theorem isLabelChar_eq (c : Char) : isLabelChar c = (c.isLower || c.isDigit) := rfl

theorem asciiLower_eq_toLower (c : Char) : asciiLower c = c.toLower := by
  unfold asciiLower Char.toLower
  by_cases h : 'A' ≤ c ∧ c ≤ 'Z'
  · have hVal : c.val ≥ 'A'.val ∧ c.val ≤ 'Z'.val := h
    rw [if_pos h, dif_pos hVal, ← Char.ofNat_toNat (Char.mk _ _)]
    congr 1
    have hHigh : c.val.toNat ≤ 90 := UInt32.le_iff_toNat_le.1 hVal.2
    show c.val.toNat + 32 = (c.val + 32).toNat
    rw [UInt32.toNat_add]
    show c.val.toNat + 32 = (c.val.toNat + 32) % 2 ^ 32
    omega
  · have hVal : ¬ (c.val ≥ 'A'.val ∧ c.val ≤ 'Z'.val) := h
    rw [if_neg h, dif_neg hVal]

/-- In lower case the letters and digits are label characters, and nothing else is. -/
theorem isLabelChar_asciiLower (c : Char) : isLabelChar (asciiLower c) = c.isAlphanum := by
  have hUpper : c.isUpper = decide ('A' ≤ c ∧ c ≤ 'Z') := rfl
  unfold Char.isAlphanum Char.isAlpha asciiLower
  by_cases h : 'A' ≤ c ∧ c ≤ 'Z'
  · rw [if_pos h, hUpper, decide_eq_true h, Bool.true_or, Bool.true_or]
    have hLow : 65 ≤ c.toNat := UInt32.le_iff_toNat_le.1 h.1
    have hHigh : c.toNat ≤ 90 := UInt32.le_iff_toNat_le.1 h.2
    generalize c.toNat = n at hLow hHigh
    revert n
    decide
  · rw [if_neg h, hUpper, decide_eq_false h, isLabelChar_eq, Bool.false_or]

section Runs

variable {c d : Char} {cs : List Char}

/-- Between two runs stands a character that is none of a label. -/
theorem runs_append_cons (h : isLabelChar (asciiLower c) = false) (cs ds : List Char) :
    runs (cs ++ c :: ds) = runs cs ++ runs ds := by
  rw [isLabelChar_eq, asciiLower_eq_toLower] at h
  have hSep : (!(c.toLower.isLower || c.toLower.isDigit)) = true := by rw [h, Bool.not_false]
  have hSplit := List.splitOnP_append_cons (p := fun c : Char => !(c.isLower || c.isDigit))
    (cs.map Char.toLower) (ds.map Char.toLower) hSep
  unfold runs
  rw [List.map_append, List.map_cons, hSplit, List.filter_append]

theorem runs_singleton (h : isLabelChar (asciiLower c) = true) : runs [c] = [[asciiLower c]] := by
  rw [isLabelChar_eq, asciiLower_eq_toLower] at h
  have hAll : ∀ d ∈ [c.toLower], (!(d.isLower || d.isDigit)) = false := by
    intro d hd
    rw [List.mem_singleton.1 hd, h]
    rfl
  unfold runs
  rw [List.map_singleton, List.splitOnP_eq_singleton hAll, asciiLower_eq_toLower]
  rfl

/-- No run is empty. -/
theorem joined_eq_nil_iff : joined cs = [] ↔ runs cs = [] := by
  constructor
  · intro h
    cases hRuns : runs cs with
    | nil => rfl
    | cons run rest =>
      have hRun : run ∈ runs cs := hRuns ▸ List.mem_cons_self
      rw [runs, List.mem_filter] at hRun
      cases run with
      | nil => simp at hRun
      | cons c r =>
        rw [joined, hRuns, List.intercalate_cons_cons_left] at h
        simp at h
  · intro h
    rw [joined, h, List.intercalate_nil]

/-- The runs before and behind a character that is none of a label are joined by a dash. -/
theorem joined_append_cons (h : isLabelChar (asciiLower c) = false) (cs ds : List Char) :
    joined (cs ++ c :: ds) =
      if joined cs = [] then joined ds
      else if joined ds = [] then joined cs else joined cs ++ '-' :: joined ds := by
  rw [joined, runs_append_cons h]
  by_cases hBefore : joined cs = []
  · rw [if_pos hBefore, joined_eq_nil_iff.1 hBefore, List.nil_append, joined]
  · by_cases hBehind : joined ds = []
    · rw [if_neg hBefore, if_pos hBehind, joined_eq_nil_iff.1 hBehind, List.append_nil, joined]
    · rw [if_neg hBefore, if_neg hBehind, Text.intercalate_append_of_ne_nil
        (mt joined_eq_nil_iff.2 hBefore) (mt joined_eq_nil_iff.2 hBehind)]
      rfl

/-- In front of the runs nothing is kept. -/
theorem joined_cons_of_other (h : isLabelChar (asciiLower c) = false) (cs : List Char) :
    joined (c :: cs) = joined cs :=
  joined_append_cons h [] cs

/-- Two label characters side by side are in one run. -/
theorem joined_cons_cons (hc : isLabelChar (asciiLower c) = true)
    (hd : isLabelChar (asciiLower d) = true) (cs : List Char) :
    joined (c :: d :: cs) = asciiLower c :: joined (d :: cs) := by
  rw [isLabelChar_eq, asciiLower_eq_toLower] at hc hd
  obtain ⟨run, rest, hSplit⟩ := List.exists_cons_of_ne_nil
    (List.splitOnP_ne_nil (fun c => !(c.isLower || c.isDigit)) (cs.map Char.toLower))
  simp only [joined, runs, List.map_cons, List.splitOnP_cons_eq_if_modifyHead, hc, hd, hSplit,
    asciiLower_eq_toLower, Bool.not_true, Bool.false_eq_true, if_false, List.modifyHead_cons,
    List.filter_cons, List.isEmpty_cons, Bool.not_false, if_true, List.intercalate_cons_cons_left]

/-- A label character in front of another character is a run of its own. -/
theorem joined_cons_cons_of_other (hc : isLabelChar (asciiLower c) = true)
    (hd : isLabelChar (asciiLower d) = false) (cs : List Char) :
    joined (c :: d :: cs) =
      if joined cs = [] then [asciiLower c] else asciiLower c :: '-' :: joined cs := by
  have hRun : joined [c] = [asciiLower c] := by
    rw [joined, runs_singleton hc, List.intercalate_singleton]
  have hAppend := joined_append_cons hd [c] cs
  rw [hRun, if_neg (List.cons_ne_nil _ _)] at hAppend
  exact hAppend

end Runs

/-- No dash is dropped in front of a label character. -/
theorem dropTrailing_cons_of_label {c : Char} (h : isLabelChar c = true) (cs : List Char) :
    dropTrailing (· == '-') (c :: cs) = c :: dropTrailing (· == '-') cs := by
  apply Text.dropTrailing_cons_of_neg
  rw [beq_eq_false_iff_ne]
  rintro rfl
  exact absurd h (by decide)

/-- What the loop writes is the runs joined by dashes, with one more dash at the end at most. The
second half is about the loop behind a label character, whose run may go on. -/
theorem dropTrailing_collapse (cs : List Char) :
    dropTrailing (· == '-') (collapse true cs) = joined cs ∧
      ∀ c, isLabelChar (asciiLower c) = true →
        dropTrailing (· == '-') (asciiLower c :: collapse false cs) = joined (c :: cs) := by
  induction cs with
  | nil =>
    refine ⟨rfl, ?_⟩
    intro c hc
    rw [joined, runs_singleton hc, List.intercalate_singleton, dropTrailing_cons_of_label hc]
    rfl
  | cons d r ih =>
    obtain ⟨ihStart, ihBehind⟩ := ih
    cases hd : isLabelChar (asciiLower d) with
    | true =>
      rw [collapse, collapse, if_pos hd, if_pos hd]
      refine ⟨ihBehind d hd, ?_⟩
      intro c hc
      rw [dropTrailing_cons_of_label hc, ihBehind d hd, joined_cons_cons hc hd]
    | false =>
      have hStart : collapse true (d :: r) = collapse true r := by simp [collapse, hd]
      have hBehind : collapse false (d :: r) = '-' :: collapse true r := by simp [collapse, hd]
      rw [hStart, hBehind]
      refine ⟨?_, ?_⟩
      · rw [joined_cons_of_other hd]
        exact ihStart
      · intro c hc
        -- the dash behind `c` is kept only if the loop finds one more run
        rw [joined_cons_cons_of_other hc hd, dropTrailing_cons_of_label hc,
          Text.dropTrailing_cons_of_pos (p := (· == '-')) rfl, ihStart]
        split <;> rfl

/-- A normal form is made of the runs of the text. -/
theorem normalChars_eq (cs : List Char) :
    normalChars cs = ((joined cs).take maxLength).rdropWhile (· == '-') := by
  rw [normalChars, ← (dropTrailing_collapse cs).1, ← Text.dropTrailing_eq_rdropWhile,
    Text.dropTrailing_take_dropTrailing]

/-! ### Labels -/

/-- A text without letters and digits is collapsed to nothing. -/
theorem collapse_eq_nil_iff {cs : List Char} :
    collapse true cs = [] ↔ ∀ c ∈ cs, isLabelChar (asciiLower c) = false := by
  induction cs with
  | nil => simp [collapse]
  | cons c r ih =>
    rw [collapse, List.forall_mem_cons]
    cases hc : isLabelChar (asciiLower c) with
    | true => simp
    | false => simpa using ih

/-- What is collapsed begins with a label character, so that neither the cut nor the dropping of
dashes can empty it. -/
theorem normalChars_eq_nil_iff {cs : List Char} :
    normalChars cs = [] ↔ ∀ c ∈ cs, isLabelChar (asciiLower c) = false := by
  rw [← collapse_eq_nil_iff, normalChars]
  have hCollapsed := collapsed_collapse true cs
  cases h : collapse true cs with
  | nil => simp [dropTrailing]
  | cons c r =>
    rw [h, Collapsed] at hCollapsed
    by_cases hc : isLabelChar c = true
    · have hTake : (c :: r).take maxLength = c :: r.take (maxLength - 1) := rfl
      rw [hTake, dropTrailing_cons_of_label hc]
      simp
    · rw [if_neg hc] at hCollapsed
      exact absurd hCollapsed.2.1 (by simp)

/-- A text is collapsed when it holds label characters and single dashes. -/
theorem collapsed_iff (atDash : Bool) (cs : List Char) :
    Collapsed atDash cs ↔
      (∀ c ∈ cs, isLabelChar c = true ∨ c = '-') ∧ ¬ ['-', '-'] <:+: cs ∧
        (atDash = true → cs.head? ≠ some '-') := by
  induction cs generalizing atDash with
  | nil => simp [Collapsed]
  | cons c r ih =>
    rw [Collapsed, List.forall_mem_cons, List.infix_cons_iff, List.cons_prefix_cons]
    by_cases hc : isLabelChar c = true
    · have hNe : c ≠ '-' := by
        rintro rfl
        exact absurd hc (by decide)
      simp [hc, hNe, Ne.symm hNe, ih false]
    · have hPrefix : ['-'] <+: r ↔ r.head? = some '-' := by
        cases r <;> simp [eq_comm]
      rw [if_neg hc, ih true, hPrefix]
      by_cases hDash : c = '-'
      · cases atDash <;> simp [hDash, and_comm]
      · simp [hc, hDash]

/-- The normal forms are the empty text and the labels without two dashes in a row. -/
theorem isNormal_iff {cs : List Char} :
    IsNormal cs ↔ cs = [] ∨ isLabelChars cs = true ∧ ¬ ['-', '-'] <:+: cs := by
  have hNotDash : isLabelChar '-' = false := by decide
  constructor
  · rintro ⟨hCollapsed, hShort, hEnd⟩
    cases cs with
    | nil => exact .inl rfl
    | cons c r =>
      right
      obtain ⟨hChars, hApart, hStart⟩ := (collapsed_iff true (c :: r)).1 hCollapsed
      have hHead : isLabelChar c = true := by
        apply (hChars c List.mem_cons_self).resolve_right
        intro hc
        exact hStart rfl (hc ▸ rfl)
      have hLast : isLabelChar ((c :: r).getLast (List.cons_ne_nil c r)) = true := by
        apply (hChars _ (List.getLast_mem _)).resolve_right
        intro hc
        exact hEnd (hc ▸ List.getLast?_eq_some_getLast _)
      refine ⟨?_, hApart⟩
      simp only [isLabelChars, List.head?_cons, Option.any_some, Bool.and_eq_true,
        List.getLast?_eq_some_getLast (List.cons_ne_nil c r), decide_eq_true_eq, List.all_eq_true,
        Bool.or_eq_true, beq_iff_eq]
      exact ⟨⟨⟨hShort, hChars⟩, hHead⟩, hLast⟩
  · rintro (rfl | ⟨hLabel, hApart⟩)
    · exact ⟨trivial, Nat.zero_le _, by simp⟩
    · simp only [isLabelChars, Bool.and_eq_true, decide_eq_true_eq] at hLabel
      obtain ⟨⟨⟨hShort, hChars⟩, hHead⟩, hLast⟩ := hLabel
      refine ⟨(collapsed_iff true cs).2 ⟨?_, hApart, ?_⟩, hShort, ?_⟩
      · simpa using hChars
      · intro _ hDash
        simp [hDash, hNotDash] at hHead
      · intro hDash
        simp [hDash, hNotDash] at hLast

theorem isLabelChars_normalChars (cs : List Char) :
    normalChars cs = [] ∨ isLabelChars (normalChars cs) = true :=
  (isNormal_iff.1 (isNormal_normalChars cs)).imp_right And.left

/-- A text is its own normal form when it is empty or a label without two dashes in a row. -/
theorem normalize_eq_self_iff {s : String} :
    normalize s = s ↔ s = "" ∨ isLabel s = true ∧ ¬ ['-', '-'] <:+: s.toList := by
  rw [← String.toList_inj, normalize, String.toList_ofList, isLabel, ← String.toList_eq_nil_iff,
    ← isNormal_iff]
  constructor
  · intro h
    exact h ▸ isNormal_normalChars s.toList
  · exact normalChars_eq_self

/-! ### The cut -/

/-- A text whose joined runs are no longer than a name is not cut. -/
theorem normalChars_eq_joined {cs : List Char} (h : (joined cs).length ≤ maxLength) :
    normalChars cs = joined cs := by
  rw [normalChars_eq, List.take_of_length_le h, ← Text.dropTrailing_eq_rdropWhile]
  apply Text.dropTrailing_eq_self
  intro c hc
  rw [← (dropTrailing_collapse cs).1] at hc
  exact Text.getLast?_dropTrailing (p := (· == '-')) hc

theorem collapsed_joined (cs : List Char) : Collapsed true (joined cs) := by
  obtain ⟨tail, hTail, -⟩ := Text.exists_append_dropTrailing (· == '-') (collapse true cs)
  have hCollapsed := collapsed_collapse true cs
  rw [hTail, (dropTrailing_collapse cs).1] at hCollapsed
  exact hCollapsed.left

/-- The cut takes at most the last character off the longest name. -/
theorem le_length_normalChars {cs : List Char} (h : maxLength < (joined cs).length) :
    maxLength ≤ (normalChars cs).length + 1 := by
  obtain ⟨tail, hTail, hAll⟩ :=
    Text.exists_append_dropTrailing (· == '-') ((joined cs).take maxLength)
  rw [Text.dropTrailing_eq_rdropWhile, ← normalChars_eq] at hTail
  have hShort : tail.length ≤ 1 := by
    have hCollapsed := collapsed_joined cs
    rw [← List.take_append_drop maxLength (joined cs), hTail] at hCollapsed
    have hApart := ((collapsed_iff true _).1 hCollapsed.left).2.1
    match tail, hAll with
    | [], _ => exact Nat.zero_le 1
    | [_], _ => exact Nat.le_refl 1
    | c :: d :: r, hAll =>
      obtain ⟨hc, hd, -⟩ : c = '-' ∧ d = '-' ∧ _ := by simpa using hAll
      exact absurd ⟨normalChars cs, r, by rw [hc, hd]; simp⟩ hApart
  have hLength := congrArg List.length hTail
  rw [List.length_take, List.length_append] at hLength
  omega

/-! ### The normal form -/

/-- The normal form of a text is its runs of letters and digits in lower case, joined by single
dashes, cut at the longest name and without the dash that the cut can leave at the end. It is empty
for a text without letters and digits and a label for any other; normalizing it again changes
nothing, and the labels without two dashes in a row are the names that are normal already. -/
theorem normalize_eq_of_runs (s : String) :
    normalize s =
        String.ofList (((['-'].intercalate (runs s.toList)).take 63).rdropWhile (· == '-')) ∧
      (normalize s = "" ↔ ∀ c ∈ s.toList, c.isAlphanum = false) ∧
      (normalize s = "" ∨ isLabel (normalize s) = true) ∧
      normalize (normalize s) = normalize s ∧
      (normalize s = s ↔ s = "" ∨ isLabel s = true ∧ ¬ ['-', '-'] <:+: s.toList) := by
  refine ⟨?_, ?_, ?_, normalize_idem s, normalize_eq_self_iff⟩
  · rw [normalize, normalChars_eq, joined, maxLength]
  · rw [normalize, String.ofList_eq_empty_iff, normalChars_eq_nil_iff]
    simp only [isLabelChar_asciiLower]
  · rw [normalize, String.ofList_eq_empty_iff, isLabel, String.toList_ofList]
    exact isLabelChars_normalChars s.toList

/-- A cut behind a dash leaves a name that is shorter by one. -/
example : normalize (String.ofList (List.replicate 62 'a') ++ "_tail") =
    String.ofList (List.replicate 62 'a') := by decide

end Name

end KubeCompose
