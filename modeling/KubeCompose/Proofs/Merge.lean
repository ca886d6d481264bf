import KubeCompose.Proofs.Repeated
import KubeCompose.Proofs.Sameness

/-!
# Look-ups in merged mappings

A mapping is laid over another one entry by entry. As its keys differ, each of them is met once: the
value that is found for a key in the end is that of one of the two mappings, or both merged, and the
keys are those of the lower mapping in their places with the new ones of the upper mapping behind.
-/

namespace KubeCompose.Yaml

open OrderedMap (Apart contains find? find?_append find?_cons find?_insert_apart find?_insert_self
  isSome_find? keys keys_insert_of_find?)

variable {d k key v w : Yaml} {lower upper : List (Yaml × Yaml)}

theorem apart_of_beq_eq_false (h : k.keysDiffer = true) (hNe : (key == k) = false) :
    Apart key k := by
  intro j hKey
  rw [Bool.eq_false_iff] at hNe ⊢
  exact fun hSame => hNe (beq_trans hKey (beq_symm h hSame))

/-! ### Whole values -/

/-- Whether a value is a mapping without a tag. -/
def isPlainMap : Yaml → Bool
  | .map _ => true
  | _ => false

theorem exists_of_isPlainMap (h : d.isPlainMap = true) : ∃ entries, d = .map entries := by
  cases d with
  | map entries => exact ⟨entries, rfl⟩
  | _ => cases h

/-- Only of two mappings something is left of the lower value. -/
theorem merge_of_not_maps (h : (w.isPlainMap && v.isPlainMap) = false) : merge w v = v := by
  cases v with
  | map upper =>
    cases w with
    | map lower => cases h
    | _ => simp [merge]
  | _ => simp [merge]

/-- A value that is laid over nothing stays as it is. -/
theorem merge_null (v : Yaml) : merge .null v = v := merge_of_not_maps rfl

theorem isPlainMap_merge_map (w : Yaml) (upper : List (Yaml × Yaml)) :
    (merge w (.map upper)).isPlainMap = true := by
  cases w <;> simp [merge, isPlainMap]

/-! ### One entry -/

/-- The lower mapping after one entry of the upper one. -/
def mergeEntry (lower : List (Yaml × Yaml)) (k v : Yaml) : List (Yaml × Yaml) :=
  match find? lower k with
  | some w => OrderedMap.insert lower k (merge w v)
  | none => lower ++ [(k, v)]

theorem mergeEntries_cons (lower : List (Yaml × Yaml)) (k v : Yaml) (rest : List (Yaml × Yaml)) :
    mergeEntries lower ((k, v) :: rest) = mergeEntries (mergeEntry lower k v) rest := by
  rw [mergeEntries]
  rfl

/-- An entry with another key does not matter. -/
theorem find?_mergeEntry_of_beq_eq_false (h : k.keysDiffer = true) (hNe : (key == k) = false)
    (lower : List (Yaml × Yaml)) (v : Yaml) :
    find? (mergeEntry lower k v) key = find? lower key := by
  rw [mergeEntry]
  split
  · exact find?_insert_apart (apart_of_beq_eq_false h hNe) lower BEq.rfl _
  · rw [find?_append, find?_cons, hNe]
    simp

/-- An entry is laid over what the lower mapping has for its key, which may be nothing. -/
theorem find?_mergeEntry (h : key.keysDiffer = true) (hSame : (key == k) = true)
    (lower : List (Yaml × Yaml)) (v : Yaml) :
    find? (mergeEntry lower k v) key = some (merge ((find? lower key).getD .null) v) := by
  have hCongr := beq_congr h hSame
  rw [OrderedMap.find?_congr hCongr, OrderedMap.find?_congr hCongr, mergeEntry]
  cases hLower : find? lower k with
  | none =>
    rw [find?_append, hLower, Option.none_or, find?_cons, if_pos BEq.rfl, Option.getD_none,
      merge_null]
  | some w => exact find?_insert_self lower BEq.rfl _

theorem keys_mergeEntry (lower : List (Yaml × Yaml)) (k v : Yaml) :
    keys (mergeEntry lower k v) =
      if (keys lower).any (k == ·) then keys lower else keys lower ++ [k] := by
  rw [mergeEntry, ← isSome_find?]
  cases hFind : find? lower k with
  | none => exact List.map_append
  | some w => exact keys_insert_of_find? hFind _

/-! ### All entries -/

section Entries

variable (hUpper : entryKeysDiffer upper = true)
include hUpper

/-- What the upper mapping does not have is left of the lower one. -/
theorem find?_mergeEntries_of_none (h : find? upper key = none) :
    find? (mergeEntries lower upper) key = find? lower key := by
  induction upper generalizing lower with
  | nil => rw [mergeEntries]
  | cons e upper ih =>
    obtain ⟨k, u⟩ := e
    simp only [entryKeysDiffer, Bool.and_eq_true] at hUpper
    rw [find?_cons] at h
    split at h
    · cases h
    · rename_i hNe
      rw [mergeEntries_cons, ih hUpper.2 h,
        find?_mergeEntry_of_beq_eq_false hUpper.1.1.2 (by simpa using hNe)]

/-- What the upper mapping has is laid over what the lower one has, which may be nothing. -/
theorem find?_mergeEntries_of_some (hKey : key.keysDiffer = true) (h : find? upper key = some v) :
    find? (mergeEntries lower upper) key = some (merge ((find? lower key).getD .null) v) := by
  induction upper generalizing lower with
  | nil => simp at h
  | cons e upper ih =>
    obtain ⟨k, u⟩ := e
    simp only [entryKeysDiffer, Bool.and_eq_true] at hUpper
    rw [mergeEntries_cons]
    rw [find?_cons] at h
    split at h
    · -- the key comes once in the upper mapping, so no later entry merges it again
      rename_i hSame
      have hRest : find? upper key = none := by
        rw [OrderedMap.find?_congr (beq_congr hKey hSame)]
        simpa [contains] using hUpper.1.1.1
      rw [find?_mergeEntries_of_none hUpper.2 hRest, find?_mergeEntry hKey hSame,
        Option.some.inj h]
    · rename_i hNe
      rw [ih hUpper.2 h, find?_mergeEntry_of_beq_eq_false hUpper.1.1.2 (by simpa using hNe)]

/-- The keys of the lower mapping keep their places, and the others follow in their order. -/
theorem keys_mergeEntries_eq_append :
    keys (mergeEntries lower upper) =
      keys lower ++ (keys upper).filter fun k => !contains lower k := by
  induction upper generalizing lower with
  | nil => simp [mergeEntries, keys]
  | cons e upper ih =>
    obtain ⟨k, v⟩ := e
    obtain ⟨hDiffer, -⟩ := entryKeysDiffer_iff.1 hUpper
    obtain ⟨hNew, -⟩ := List.pairwise_cons.1 hDiffer.pairwise_symm
    have hHead : k.keysDiffer = true := hDiffer.keysDiffer k List.mem_cons_self
    simp only [entryKeysDiffer, Bool.and_eq_true] at hUpper
    have hFilter : (keys upper).filter (fun j => !contains (mergeEntry lower k v) j) =
        (keys upper).filter fun j => !contains lower j :=
      List.filter_congr fun j hj => by
        rw [contains, find?_mergeEntry_of_beq_eq_false hHead (hNew j hj), contains]
    have hKeys : keys ((k, v) :: upper) = k :: keys upper := rfl
    rw [mergeEntries_cons, ih hUpper.2, hFilter, keys_mergeEntry, ← isSome_find?, ← contains, hKeys,
      List.filter_cons]
    cases contains lower k <;> simp

/-- The keys of a merged mapping differ. -/
theorem differing_keys_mergeEntries (hLower : Differing (keys lower)) :
    Differing (keys (mergeEntries lower upper)) := by
  obtain ⟨hDiffer, -⟩ := entryKeysDiffer_iff.1 hUpper
  rw [keys_mergeEntries_eq_append hUpper]
  constructor
  · refine List.pairwise_append.2 ⟨hLower.pairwise, hDiffer.pairwise.filter _, ?_⟩
    intro k hk j hj
    have hNew : contains lower j = false := by simpa using (List.mem_filter.1 hj).2
    rw [contains, isSome_find?, List.any_eq_false] at hNew
    rw [Bool.eq_false_iff]
    exact fun hSame => hNew k hk (beq_symm (hLower.keysDiffer k hk) hSame)
  · intro k hk
    rcases List.mem_append.1 hk with hk | hk
    · exact hLower.keysDiffer k hk
    · exact hDiffer.keysDiffer k (List.mem_filter.1 hk).1

end Entries

end KubeCompose.Yaml
