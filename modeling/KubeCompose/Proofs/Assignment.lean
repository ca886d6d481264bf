import KubeCompose.Proofs.Name
import Mathlib.Data.List.Induction

/-!
# The text that is refused a name

Names are given to the texts of a list one after another, and the first text that cannot be given
one decides how the list is refused. The loop knows the names that are taken, each with its text;
they are the normal forms of the texts before (`taken`), which is all that has to be known of a run
that has come so far.
-/

namespace KubeCompose.Name

/-- Why a text cannot be given a name behind others: none of its characters can be used, or its
normal form is that of one of the others. -/
inductive Refused (before : List String) (s : String) : Error → Prop
  | empty (hEmpty : normalize s = "") : Refused before s (.empty s)
  | conflict {first : String} (hName : normalize s ≠ "") (hFirst : first ∈ before)
      (hSame : normalize first = normalize s) : Refused before s (.conflict first s (normalize s))

/-- Texts that can all be given names. -/
structure Nameable (texts : List String) : Prop where
  nonempty : ∀ s ∈ texts, normalize s ≠ ""
  distinct : (texts.map normalize).Nodup

section

variable {before texts : List String} {s t : String} {e : Error}

theorem Nameable.left (h : Nameable (before ++ texts)) : Nameable before := by
  refine ⟨fun s hs => h.nonempty s (List.mem_append_left _ hs), ?_⟩
  have hDistinct := h.distinct
  rw [List.map_append] at hDistinct
  exact hDistinct.of_append_left

theorem nameable_nil : Nameable [] := ⟨by simp, List.nodup_nil⟩

/-- One more text can be given a name when it is not refused one. -/
theorem nameable_concat_iff :
    Nameable (before ++ [s]) ↔ Nameable before ∧ ∀ e, ¬ Refused before s e := by
  constructor
  · intro h
    refine ⟨h.left, ?_⟩
    intro e hRefused
    cases hRefused with
    | empty hEmpty =>
      exact h.nonempty s (List.mem_append_right _ (List.mem_singleton_self s)) hEmpty
    | @conflict first _ hFirst hSame =>
      have hDistinct := h.distinct
      rw [List.map_append, List.nodup_append] at hDistinct
      exact hDistinct.2.2 _ (List.mem_map_of_mem hFirst) _ (List.mem_singleton_self _) hSame
  · rintro ⟨h, hFree⟩
    have hName : normalize s ≠ "" := fun hEmpty => hFree _ (.empty hEmpty)
    refine ⟨?_, ?_⟩
    · intro t ht
      rcases List.mem_append.1 ht with ht | ht
      · exact h.nonempty t ht
      · rwa [List.mem_singleton.1 ht]
    · rw [List.map_append, List.nodup_append]
      refine ⟨h.distinct, List.nodup_singleton _, ?_⟩
      intro name hMem other hOther hSame
      obtain ⟨first, hFirst, rfl⟩ := List.mem_map.1 hMem
      rw [List.map_singleton, List.mem_singleton] at hOther
      exact hFree _ (.conflict hName hFirst (hSame.trans hOther))

/-- Where not all texts can be given names there is a first one that is refused. -/
theorem exists_refused (h : ¬ Nameable texts) :
    ∃ before s after e, texts = before ++ s :: after ∧ Nameable before ∧ Refused before s e := by
  induction texts using List.reverseRecOn with
  | nil => exact absurd nameable_nil h
  | append_singleton texts last ih =>
    by_cases hTexts : Nameable texts
    · rw [nameable_concat_iff, not_and] at h
      obtain ⟨e, hRefused⟩ := not_forall_not.1 (h hTexts)
      exact ⟨texts, last, [], e, rfl, hTexts, hRefused⟩
    · obtain ⟨before, s, after, e, hEq, hBefore, hRefused⟩ := ih hTexts
      exact ⟨before, s, after ++ [last], e, by simp [hEq], hBefore, hRefused⟩

/-! ### The loop -/

/-- The names of texts, the latest first, each with its text. -/
def taken (before : List String) : List (String × String) :=
  (before.map fun s => (normalize s, s)).reverse

theorem taken_concat (before : List String) (s : String) :
    taken (before ++ [s]) = (normalize s, s) :: taken before := by
  simp [taken]

theorem lookup_taken_eq_none_iff {name : String} :
    (taken before).lookup name = none ↔ ∀ t ∈ before, normalize t ≠ name := by
  rw [List.lookup_eq_none_iff, taken]
  simp only [List.mem_reverse, List.forall_mem_map, bne_iff_ne]
  exact forall₂_congr fun t _ => ne_comm

/-- A name that is taken is found with its text. -/
theorem lookup_taken (h : Nameable before) (ht : t ∈ before) :
    (taken before).lookup (normalize t) = some t := by
  induction before using List.reverseRecOn with
  | nil => simp at ht
  | append_singleton before last ih =>
    obtain ⟨hBefore, hFree⟩ := nameable_concat_iff.1 h
    rw [taken_concat]
    rcases List.mem_append.1 ht with ht | ht
    · have hLast : normalize last ≠ "" := fun hEmpty => hFree _ (.empty hEmpty)
      have hNe : normalize t ≠ normalize last := fun hSame => hFree _ (.conflict hLast ht hSame)
      rw [List.lookup_cons, beq_false_of_ne hNe]
      exact ih hBefore ht
    · rw [List.mem_singleton.1 ht, List.lookup_cons_self]

/-- A step of the loop on a text that is refused. -/
theorem assignFrom_of_refused (hBefore : Nameable before) (h : Refused before s e)
    (rest : List String) : assignFrom (taken before) (s :: rest) = .error e := by
  rw [assignFrom]
  cases h with
  | empty hEmpty =>
    have hText : ofText s = .error (.empty s) := by rw [ofText, hEmpty]; rfl
    rw [hText]
    rfl
  | conflict hName hFirst hSame =>
    have hText : ofText s = .ok (normalize s) := ofText_eq_ok_iff.2 ⟨rfl, hName⟩
    have hTaken := lookup_taken hBefore hFirst
    rw [hSame] at hTaken
    rw [hText]
    simp only [bind, Except.bind, hTaken]
    rfl

/-- A step of the loop on a text that is given a name. -/
theorem assignFrom_of_not_refused (h : ∀ e, ¬ Refused before s e) (rest : List String) :
    assignFrom (taken before) (s :: rest) =
      (assignFrom (taken (before ++ [s])) rest).map ((s, normalize s) :: ·) := by
  have hName : normalize s ≠ "" := fun hEmpty => h _ (.empty hEmpty)
  have hText : ofText s = .ok (normalize s) := ofText_eq_ok_iff.2 ⟨rfl, hName⟩
  have hFree : (taken before).lookup (normalize s) = none := by
    rw [lookup_taken_eq_none_iff]
    intro t ht hSame
    exact h _ (.conflict hName ht hSame)
  rw [assignFrom, hText, taken_concat]
  simp only [bind, Except.bind, hFree]
  rfl

/-- A run of the loop up to the first text that is refused. -/
theorem assignFrom_append_of_refused (before : List String) (hTexts : Nameable (before ++ texts))
    (h : Refused (before ++ texts) s e) (after : List String) :
    assignFrom (taken before) (texts ++ s :: after) = .error e := by
  induction texts generalizing before with
  | nil =>
    rw [List.append_nil] at hTexts h
    exact assignFrom_of_refused hTexts h after
  | cons t rest ih =>
    rw [List.append_cons] at hTexts h
    have hFree := (nameable_concat_iff.1 hTexts.left).2
    rw [List.cons_append, assignFrom_of_not_refused hFree, ih _ hTexts h]
    rfl

/-- A list of texts is refused with the error of its first text that is refused. -/
theorem assign_eq_error_iff :
    assign texts = .error e ↔
      ∃ before s after, texts = before ++ s :: after ∧ Nameable before ∧ Refused before s e := by
  constructor
  · intro h
    have hNot : ¬ Nameable texts := by
      rintro ⟨hNames, hDistinct⟩
      rw [assign_eq_ok_iff.2 ⟨hNames, hDistinct, rfl⟩] at h
      cases h
    obtain ⟨before, s, after, d, rfl, hBefore, hRefused⟩ := exists_refused hNot
    have hError : assign (before ++ s :: after) = .error d :=
      assignFrom_append_of_refused [] hBefore hRefused after
    rw [hError, Except.error.injEq] at h
    exact ⟨before, s, after, rfl, hBefore, h ▸ hRefused⟩
  · rintro ⟨before, s, after, rfl, hBefore, hRefused⟩
    exact assignFrom_append_of_refused [] hBefore hRefused after

/-- The texts before an index can be given names when none of them is refused one. -/
theorem nameable_take_iff {i : Nat} (h : i ≤ texts.length) :
    Nameable (texts.take i) ↔
      ∀ (j : Nat) (hj : j < i), ∀ e, ¬ Refused (texts.take j) texts[j] e := by
  induction i with
  | zero => simp [nameable_nil]
  | succ i ih =>
    have hi : i < texts.length := h
    rw [List.take_succ_eq_append_getElem hi, nameable_concat_iff, ih (Nat.le_of_lt hi)]
    constructor
    · rintro ⟨hBefore, hLast⟩ j hj
      rcases Nat.lt_succ_iff_lt_or_eq.1 hj with hj | rfl
      · exact hBefore j hj
      · exact hLast
    · intro hAll
      exact ⟨fun j hj => hAll j (Nat.lt_succ_of_lt hj), hAll i (Nat.lt_succ_self i)⟩

end

/-- Names are given to a list of texts exactly when no normal form is empty and no two are the same;
then each text has its normal form, in the order of the list, and no two texts share one. Otherwise
the list is refused with the error of the first text that is refused a name: an empty name, or a
conflict with the text before it that has its normal form. -/
theorem assigned_or_first_refused (texts : List String) :
    (∀ names, assign texts = .ok names ↔
      (∀ s ∈ texts, normalize s ≠ "") ∧ texts.Pairwise (fun s t => normalize s ≠ normalize t) ∧
        names = texts.map fun s => (s, normalize s)) ∧
    (∀ names, assign texts = .ok names → ∀ a ∈ names, ∀ b ∈ names, a.2 = b.2 → a = b) ∧
    ∀ e, assign texts = .error e ↔
      ∃ (i : Nat) (h : i < texts.length), Refused (texts.take i) texts[i] e ∧
        ∀ (j : Nat) (hj : j < i), ∀ d, ¬ Refused (texts.take j) texts[j] d := by
  refine ⟨?_, ?_, ?_⟩
  · intro names
    rw [assign_eq_ok_iff, List.Nodup, List.pairwise_map]
  · intro names hNames a ha b hb hSame
    have hAssigned := assigned_assign hNames
    exact List.inj_on_of_nodup_map hAssigned.distinct ha hb hSame
  · intro e
    rw [assign_eq_error_iff]
    constructor
    · rintro ⟨before, s, after, rfl, hBefore, hRefused⟩
      have hLength : before.length < (before ++ s :: after).length := by simp
      refine ⟨before.length, hLength, ?_, ?_⟩
      · simpa using hRefused
      · rw [← nameable_take_iff (Nat.le_of_lt hLength)]
        simpa using hBefore
    · rintro ⟨i, h, hRefused, hFirst⟩
      refine ⟨texts.take i, texts[i], texts.drop (i + 1), ?_, ?_, hRefused⟩
      · rw [← List.drop_eq_getElem_cons h, List.take_append_drop]
      · exact (nameable_take_iff (Nat.le_of_lt h)).2 hFirst

example : assign ["order_service", "web", "Order.Service", "!"] =
    .error (.conflict "order_service" "Order.Service" "order-service") := by decide

end KubeCompose.Name
