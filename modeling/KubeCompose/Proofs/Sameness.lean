import KubeCompose.Proofs.OrderedMap
import KubeCompose.Yaml.Value
import Mathlib.Data.List.Forall2

/-!
# When values are the same

Mappings are compared without regard to the order of their entries, so a comparison only looks for
each entry of the first mapping in the second one. Where the keys of every mapping differ this is
enough: the entries that are found are as many as there are, and sameness goes both ways. Two keys
that are the same are then found in the same places.
-/

namespace KubeCompose

/-! ### Numbers -/

namespace Number.Binary64

variable {x y z : Binary64}

/-- Two numbers are the same when they are one, or when both are zeros. -/
theorem same_iff : same x y = true ↔
    x = y ∨ ∃ s e t f, x = .finite s 0 e ∧ y = .finite t 0 f := by
  cases x with
  | finite s m e =>
    cases y with
    | finite t n f => cases m <;> cases n <;> simp [same]
    | _ => cases m <;> simp [same]
  | _ => simp [same]

theorem same_self (x : Binary64) : same x x = true := same_iff.2 (.inl rfl)

theorem same_comm (x y : Binary64) : same x y = same y x := by
  rw [Bool.eq_iff_iff, same_iff, same_iff]
  constructor <;>
  · rintro (rfl | ⟨s, e, t, f, rfl, rfl⟩)
    · exact .inl rfl
    · exact .inr ⟨t, f, s, e, rfl, rfl⟩

theorem same_trans (hxy : same x y = true) (hyz : same y z = true) : same x z = true := by
  rw [same_iff] at hxy hyz ⊢
  obtain rfl | ⟨s, e, t, f, rfl, rfl⟩ := hxy
  · exact hyz
  · obtain rfl | ⟨s', e', t', f', hy, rfl⟩ := hyz
    · exact .inr ⟨s, e, t, f, rfl, rfl⟩
    · exact .inr ⟨s, e, t', f', rfl, rfl⟩

end Number.Binary64

/-! ### Lists that are matched -/

/-- When each of some things has a partner of its own among as many others, each of these is one. -/
theorem exists_of_matched {α β : Type} {R : α → β → Prop} {xs : List α} {ys : List β}
    (hLength : xs.length = ys.length) (hMatch : ∀ x ∈ xs, ∃ y ∈ ys, R x y)
    (hOwn : xs.Pairwise fun x x' => ∀ y, R x y → ¬R x' y) : ∀ y ∈ ys, ∃ x ∈ xs, R x y := by
  induction xs generalizing ys with
  | nil =>
    intro y hy
    rw [List.length_nil] at hLength
    rw [List.eq_nil_of_length_eq_zero hLength.symm] at hy
    cases hy
  | cons x xs ih =>
    obtain ⟨hHead, hTail⟩ := List.pairwise_cons.1 hOwn
    obtain ⟨partner, hPartner, hR⟩ := hMatch x List.mem_cons_self
    obtain ⟨before, after, rfl⟩ := List.append_of_mem hPartner
    have hRest : ∀ y ∈ before ++ after, ∃ x ∈ xs, R x y := by
      apply ih _ _ hTail
      · simp only [List.length_cons, List.length_append] at hLength ⊢
        omega
      · intro x' hx'
        obtain ⟨y, hy, hR'⟩ := hMatch x' (List.mem_cons_of_mem x hx')
        refine ⟨y, ?_, hR'⟩
        have hNe : y ≠ partner := fun hEq => hHead x' hx' partner hR (hEq ▸ hR')
        simpa [hNe] using hy
    intro y hy
    by_cases hEq : y = partner
    · exact ⟨x, List.mem_cons_self, hEq ▸ hR⟩
    · obtain ⟨x', hx', hR'⟩ := hRest y (by simpa [hEq] using hy)
      exact ⟨x', List.mem_cons_of_mem x hx', hR'⟩

namespace Yaml

open OrderedMap (find? find?_cons contains keys isSome_find?)

variable {a b c k j key v w : Yaml} {entries xs ys : List (Yaml × Yaml)} {items others : List Yaml}

/-! ### Parts of values -/

/-- What passes from the parts of a value to the value holds of all values. -/
@[elab_as_elim]
theorem inductionOnParts {motive : Yaml → Prop} (null : motive .null)
    (bool : ∀ value, motive (.bool value)) (int : ∀ value, motive (.int value))
    (float : ∀ value, motive (.float value)) (str : ∀ value, motive (.str value))
    (seq : ∀ items, (∀ v ∈ items, motive v) → motive (.seq items))
    (map : ∀ entries, (∀ e ∈ entries, motive e.1 ∧ motive e.2) → motive (.map entries))
    (tagged : ∀ tag v, motive v → motive (.tagged tag v)) (v : Yaml) : motive v :=
  @Yaml.rec motive (fun items => ∀ v ∈ items, motive v)
    (fun entries => ∀ e ∈ entries, motive e.1 ∧ motive e.2) (fun e => motive e.1 ∧ motive e.2)
    null bool int float str seq map tagged
    (fun _ h => absurd h List.not_mem_nil)
    (fun _ _ hHead hTail => List.forall_mem_cons.2 ⟨hHead, hTail⟩)
    (fun _ h => absurd h List.not_mem_nil)
    (fun _ _ hHead hTail => List.forall_mem_cons.2 ⟨hHead, hTail⟩)
    (fun _ _ hKey hValue => ⟨hKey, hValue⟩) v

theorem sameItems_iff : sameItems items others = true ↔
    List.Forall₂ (fun v w => same v w = true) items others := by
  induction items generalizing others with
  | nil => cases others <;> simp [sameItems]
  | cons v items ih => cases others <;> simp [sameItems, ih]

theorem same_seq_iff : same (.seq items) (.seq others) = true ↔
    items.length = others.length ∧ ∀ (i : Nat) (h : i < items.length) (h' : i < others.length),
      same items[i] others[i] = true := by
  rw [same, sameItems_iff, List.forall₂_iff_get]
  rfl

theorem sameEntries_iff : sameEntries xs ys = true ↔
    ∀ e ∈ xs, ∃ f ∈ ys, same e.1 f.1 = true ∧ same e.2 f.2 = true := by
  induction xs with
  | nil => simp [sameEntries]
  | cons e xs ih =>
    obtain ⟨k, v⟩ := e
    rw [sameEntries, Bool.and_eq_true, ih, List.forall_mem_cons, List.any_eq_true]
    simp only [Bool.and_eq_true]

theorem same_map_iff : same (.map xs) (.map ys) = true ↔
    xs.length = ys.length ∧ ∀ e ∈ xs, ∃ f ∈ ys, same e.1 f.1 = true ∧ same e.2 f.2 = true := by
  rw [same, Bool.and_eq_true, beq_iff_eq, sameEntries_iff]

theorem itemKeysDiffer_iff (items : List Yaml) :
    itemKeysDiffer items = true ↔ ∀ v ∈ items, v.keysDiffer = true := by
  induction items with
  | nil => simp [itemKeysDiffer]
  | cons v r ih => rw [itemKeysDiffer, Bool.and_eq_true, ih, List.forall_mem_cons]

/-- Keys that may stand in one mapping: they differ, and so do the keys in each of them. -/
structure Differing (ks : List Yaml) : Prop where
  pairwise : ks.Pairwise fun k j => (k == j) = false
  keysDiffer : ∀ k ∈ ks, k.keysDiffer = true

theorem entryKeysDiffer_iff : entryKeysDiffer entries = true ↔
    Differing (keys entries) ∧ ∀ e ∈ entries, e.2.keysDiffer = true := by
  induction entries with
  | nil => exact ⟨fun _ => ⟨⟨.nil, by simp [keys]⟩, by simp⟩, fun _ => rfl⟩
  | cons e entries ih =>
    obtain ⟨k, v⟩ := e
    have hNew : (!contains entries k) = true ↔ ∀ j ∈ keys entries, (k == j) = false := by
      rw [contains, isSome_find?]
      simp
    simp only [entryKeysDiffer, Bool.and_eq_true, hNew, ih, List.forall_mem_cons]
    constructor
    · rintro ⟨⟨⟨hApart, hKey⟩, hValue⟩, ⟨hPairwise, hKeys⟩, hValues⟩
      exact ⟨⟨List.pairwise_cons.2 ⟨hApart, hPairwise⟩, List.forall_mem_cons.2 ⟨hKey, hKeys⟩⟩,
        hValue, hValues⟩
    · rintro ⟨⟨hPairwise, hKeys⟩, hValue, hValues⟩
      obtain ⟨hApart, hPairwise⟩ := List.pairwise_cons.1 hPairwise
      obtain ⟨hKey, hKeys⟩ := List.forall_mem_cons.1 hKeys
      exact ⟨⟨⟨hApart, hKey⟩, hValue⟩, ⟨hPairwise, hKeys⟩, hValues⟩

/-! ### Sameness is an equivalence -/

theorem same_self (v : Yaml) : same v v = true := by
  induction v using inductionOnParts with
  | seq items ih => exact same_seq_iff.2 ⟨rfl, fun i h _ => ih _ (List.getElem_mem h)⟩
  | map entries ih => exact same_map_iff.2 ⟨rfl, fun e he => ⟨e, he, ih e he⟩⟩
  | tagged tag v ih => simp [same, ih]
  | float x => exact Number.Binary64.same_self x
  | _ => simp [same]

theorem same_trans (hab : same a b = true) (hbc : same b c = true) : same a c = true := by
  induction a using inductionOnParts generalizing b c with
  | seq items ih =>
    cases b with
    | seq others =>
      cases c with
      | seq thirds =>
        rw [same_seq_iff] at hab hbc ⊢
        refine ⟨hab.1.trans hbc.1, fun i h h' => ?_⟩
        have hi : i < others.length := hab.1 ▸ h
        exact ih _ (List.getElem_mem h) (hab.2 i h hi) (hbc.2 i hi h')
      | _ => simp [same] at hbc
    | _ => simp [same] at hab
  | map xs ih =>
    cases b with
    | map ys =>
      cases c with
      | map zs =>
        rw [same_map_iff] at hab hbc ⊢
        refine ⟨hab.1.trans hbc.1, fun e he => ?_⟩
        obtain ⟨f, hf, hKey, hValue⟩ := hab.2 e he
        obtain ⟨g, hg, hKey', hValue'⟩ := hbc.2 f hf
        exact ⟨g, hg, (ih e he).1 hKey hKey', (ih e he).2 hValue hValue'⟩
      | _ => simp [same] at hbc
    | _ => simp [same] at hab
  | tagged tag v ih =>
    cases b with
    | tagged tag' v' =>
      cases c with
      | tagged tag'' v'' =>
        simp only [same, Bool.and_eq_true, beq_iff_eq] at hab hbc ⊢
        exact ⟨hab.1.trans hbc.1, ih hab.2 hbc.2⟩
      | _ => simp [same] at hbc
    | _ => simp [same] at hab
  | float x =>
    cases b with
    | float y =>
      cases c with
      | float z => exact Number.Binary64.same_trans hab hbc
      | _ => simp [same] at hbc
    | _ => simp [same] at hab
  | _ => cases b <;> cases c <;> simp_all [same]

/-- Where the keys of each mapping differ, a value is the same as those that are the same as it. -/
theorem same_symm (h : a.keysDiffer = true) (hab : same a b = true) : same b a = true := by
  induction a using inductionOnParts generalizing b with
  | seq items ih =>
    cases b with
    | seq others =>
      rw [keysDiffer, itemKeysDiffer_iff] at h
      rw [same_seq_iff] at hab ⊢
      refine ⟨hab.1.symm, fun i hi hi' => ?_⟩
      have hMem := List.getElem_mem hi'
      exact ih _ hMem (h _ hMem) (hab.2 i hi' hi)
    | _ => simp [same] at hab
  | map xs ih =>
    cases b with
    | map ys =>
      rw [keysDiffer, entryKeysDiffer_iff] at h
      obtain ⟨⟨hPairwise, hKeys⟩, hValues⟩ := h
      have hKey : ∀ e ∈ xs, e.1.keysDiffer = true := fun e he => hKeys e.1 (List.mem_map_of_mem he)
      rw [same_map_iff] at hab ⊢
      -- no two entries here find the same one there, so each one there is found
      have hOwn : xs.Pairwise fun e e' => ∀ f : Yaml × Yaml,
          same e.1 f.1 = true ∧ same e.2 f.2 = true →
            ¬(same e'.1 f.1 = true ∧ same e'.2 f.2 = true) := by
        refine (List.pairwise_map.1 hPairwise).imp_of_mem fun {e e'} _ he' hApart f hf hf' => ?_
        have hBack := (ih e' he').1 (hKey e' he') hf'.1
        have hSame : (e.1 == e'.1) = true := same_trans hf.1 hBack
        rw [hApart] at hSame
        exact Bool.false_ne_true hSame
      have hBack := exists_of_matched hab.1 hab.2 hOwn
      refine ⟨hab.1.symm, fun f hf => ?_⟩
      obtain ⟨e, he, hFirst, hSecond⟩ := hBack f hf
      exact ⟨e, he, (ih e he).1 (hKey e he) hFirst, (ih e he).2 (hValues e he) hSecond⟩
    | _ => simp [same] at hab
  | tagged tag v ih =>
    cases b with
    | tagged tag' v' =>
      rw [keysDiffer] at h
      simp only [same, Bool.and_eq_true, beq_iff_eq] at hab ⊢
      exact ⟨hab.1.symm, ih h hab.2⟩
    | _ => simp [same] at hab
  | float x =>
    cases b with
    | float y =>
      rw [same] at hab ⊢
      rw [Number.Binary64.same_comm, hab]
    | _ => simp [same] at hab
  | _ => cases b <;> simp_all [same]

/-! ### Keys that are the same -/

instance : ReflBEq Yaml := ⟨same_self _⟩

theorem beq_trans (hab : (a == b) = true) (hbc : (b == c) = true) : (a == c) = true :=
  same_trans hab hbc

theorem beq_symm (h : a.keysDiffer = true) (hab : (a == b) = true) : (b == a) = true :=
  same_symm h hab

/-- Keys that are the same are the same as the same keys. -/
theorem beq_congr (h : a.keysDiffer = true) (hab : (a == b) = true) (c : Yaml) :
    (a == c) = (b == c) := by
  rw [Bool.eq_iff_iff]
  exact ⟨beq_trans (beq_symm h hab), beq_trans hab⟩

theorem Differing.pairwise_symm {ks : List Yaml} (h : Differing ks) :
    ks.Pairwise fun k j => (j == k) = false := by
  refine h.pairwise.imp_of_mem fun {k j} _ hj hApart => ?_
  rw [Bool.eq_false_iff] at hApart ⊢
  exact fun hSame => hApart (beq_symm (h.keysDiffer j hj) hSame)

end Yaml

end KubeCompose
