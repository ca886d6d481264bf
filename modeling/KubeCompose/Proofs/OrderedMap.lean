import KubeCompose.OrderedMap
import Mathlib.Data.List.Induction
import Mathlib.Data.List.Nodup

/-!
# Laws of maps in insertion order

What a look-up finds in a map that is written out or put together, and that the keys of a map made
by insertion differ. In a map made of a list of entries each key has the place of its first entry
and the value of its last.
-/

namespace KubeCompose.OrderedMap

variable {α β γ : Type} [BEq α]

@[simp] theorem find?_nil (key : α) : find? ([] : OrderedMap α β) key = none := rfl

theorem find?_cons (k : α) (v : β) (m : OrderedMap α β) (key : α) :
    find? ((k, v) :: m) key = if key == k then some v else find? m key := rfl

/-- In two maps put together the first one counts. -/
theorem find?_append (m n : OrderedMap α β) (key : α) :
    find? (m ++ n) key = (find? m key).or (find? n key) := by
  induction m with
  | nil => simp
  | cons e r ih =>
    obtain ⟨k, v⟩ := e
    rw [List.cons_append, find?_cons, find?_cons]
    split
    · rfl
    · exact ih

/-! ### Keys under a map that tells them apart -/

section Map

variable [BEq γ] (f : α → γ) (h : ∀ a b, (f a == f b) = (a == b))
include h

theorem find?_map (m : OrderedMap α β) (key : α) :
    find? (m.map fun e => (f e.1, e.2)) (f key) = find? m key := by
  induction m with
  | nil => rfl
  | cons e r ih =>
    obtain ⟨k, v⟩ := e
    rw [List.map_cons, find?_cons, find?_cons, h, ih]

theorem modify_map (m : OrderedMap α β) (key : α) (g : β → β) :
    modify (m.map fun e => (f e.1, e.2)) (f key) g =
      (modify m key g).map fun e => (f e.1, e.2) := by
  induction m with
  | nil => rfl
  | cons e r ih =>
    obtain ⟨k, v⟩ := e
    rw [List.map_cons, modify, modify, h, ih]
    split <;> rfl

theorem insert_map (m : OrderedMap α β) (key : α) (value : β) :
    insert (m.map fun e => (f e.1, e.2)) (f key) value =
      (insert m key value).map fun e => (f e.1, e.2) := by
  induction m with
  | nil => rfl
  | cons e r ih =>
    obtain ⟨k, v⟩ := e
    rw [List.map_cons, insert, insert, h, ih]
    split <;> rfl

theorem splitAt?_map (m : OrderedMap α β) (key : α) :
    splitAt? (m.map fun e => (f e.1, e.2)) (f key) =
      (splitAt? m key).map fun p =>
        (p.1.map fun e => (f e.1, e.2), p.2.map fun e => (f e.1, e.2)) := by
  induction m with
  | nil => rfl
  | cons e r ih =>
    obtain ⟨k, v⟩ := e
    rw [List.map_cons, splitAt?, splitAt?, h, ih]
    split
    · rfl
    · cases splitAt? r key <;> rfl

theorem swapRemove_map (m : OrderedMap α β) (key : α) :
    swapRemove (m.map fun e => (f e.1, e.2)) (f key) =
      (swapRemove m key).map fun e => (f e.1, e.2) := by
  rw [swapRemove, swapRemove, splitAt?_map f h]
  cases splitAt? m key with
  | none => rfl
  | some p =>
    obtain ⟨before, after⟩ := p
    simp only [Option.map_some, List.getLast?_map]
    cases after.getLast? with
    | none => rfl
    | some last => simp [List.map_dropLast]

end Map

/-! ### Changes that change nothing -/

theorem modify_eq_self {m : OrderedMap α β} {key : α} {f : β → β}
    (h : ∀ v, find? m key = some v → f v = v) : modify m key f = m := by
  induction m with
  | nil => rfl
  | cons e r ih =>
    obtain ⟨k, v⟩ := e
    rw [find?_cons] at h
    rw [modify]
    split
    · rename_i hKey
      rw [if_pos hKey] at h
      rw [h v rfl]
    · rename_i hKey
      rw [if_neg hKey] at h
      rw [ih h]

theorem insert_eq_self {m : OrderedMap α β} {key : α} {value : β} (h : find? m key = some value) :
    insert m key value = m := by
  induction m with
  | nil => simp at h
  | cons e r ih =>
    obtain ⟨k, v⟩ := e
    rw [find?_cons] at h
    rw [insert]
    split
    · rename_i hKey
      rw [if_pos hKey, Option.some.injEq] at h
      rw [h]
    · rename_i hKey
      rw [if_neg hKey] at h
      rw [ih h]

/-! ### Keys -/

omit [BEq α] in
theorem mem_keys_of_mem {m : OrderedMap α β} {key : α} {value : β} (h : (key, value) ∈ m) :
    key ∈ keys m :=
  List.mem_map_of_mem (f := Prod.fst) h

/-- Of the entries behind an insertion, all but the new one were there. -/
theorem mem_of_mem_insert [LawfulBEq α] {m : OrderedMap α β} {key : α} {value : β} {e : α × β}
    (h : e ∈ insert m key value) : e ∈ m ∨ e = (key, value) := by
  induction m with
  | nil => exact .inr (List.mem_singleton.1 h)
  | cons f r ih =>
    rw [insert] at h
    split at h
    · rename_i hKey
      rcases List.mem_cons.1 h with rfl | hMem
      · exact .inr (by rw [eq_of_beq hKey])
      · exact .inl (List.mem_cons_of_mem f hMem)
    · rcases List.mem_cons.1 h with rfl | hMem
      · exact .inl (List.mem_cons_self ..)
      · exact (ih hMem).imp_left (List.mem_cons_of_mem f)

theorem isSome_find? (m : OrderedMap α β) (key : α) :
    (find? m key).isSome = (keys m).any (key == ·) := by
  induction m with
  | nil => rfl
  | cons e m ih =>
    obtain ⟨k, v⟩ := e
    rw [find?_cons, keys, List.map_cons, List.any_cons]
    cases key == k with
    | true => rfl
    | false => exact ih

/-- A key that is there keeps its place. -/
theorem keys_insert_of_find? {m : OrderedMap α β} {key : α} {old : β}
    (h : find? m key = some old) (value : β) : keys (insert m key value) = keys m := by
  induction m with
  | nil => simp at h
  | cons e m ih =>
    obtain ⟨k, v⟩ := e
    rw [find?_cons] at h
    rw [insert]
    split
    · rfl
    · rename_i hOther
      rw [if_neg hOther] at h
      exact congrArg (k :: ·) (ih h)

/-! ### Maps that are known by their look-ups -/

section LookUps

variable {m n : OrderedMap α β} {key k : α} {v : β}

theorem find?_congr (h : ∀ j, (key == j) = (k == j)) (m : OrderedMap α β) :
    find? m key = find? m k := by
  induction m with
  | nil => rfl
  | cons e m ih => rw [find?_cons, find?_cons, h, ih]

/-- What is found for a key is the value of an entry with the same key. -/
theorem exists_mem_of_find? (h : find? m key = some v) : ∃ k, (key == k) = true ∧ (k, v) ∈ m := by
  induction m with
  | nil => simp at h
  | cons e m ih =>
    obtain ⟨j, u⟩ := e
    rw [find?_cons] at h
    split at h
    · rename_i hKey
      exact ⟨j, hKey, Option.some.inj h ▸ List.mem_cons_self⟩
    · obtain ⟨k, hKey, hMem⟩ := ih h
      exact ⟨k, hKey, List.mem_cons_of_mem (j, u) hMem⟩

variable [ReflBEq α]

theorem exists_find?_of_mem_keys (h : key ∈ keys m) : ∃ v, find? m key = some v := by
  rw [← Option.isSome_iff_exists, isSome_find?, List.any_eq_true]
  exact ⟨key, h, BEq.rfl⟩

/-- Each entry is found by its key when no key is the same as one before it. -/
theorem find?_of_mem_of_pairwise (hApart : (keys m).Pairwise fun k j => (j == k) = false)
    (h : (key, v) ∈ m) : find? m key = some v := by
  induction m with
  | nil => cases h
  | cons e m ih =>
    obtain ⟨k, u⟩ := e
    obtain ⟨hHead, hTail⟩ := List.pairwise_cons.1 hApart
    rw [find?_cons]
    rcases List.mem_cons.1 h with hEq | hMem
    · obtain ⟨rfl, rfl⟩ := Prod.mk.inj hEq
      rw [if_pos BEq.rfl]
    · rw [hHead key (mem_keys_of_mem hMem), if_neg Bool.false_ne_true]
      exact ih hTail hMem

/-- Two maps with the same keys in the same places are one when the same is found in them. -/
theorem eq_of_find?_eq (hApart : (keys m).Pairwise fun k j => (j == k) = false)
    (hKeys : keys m = keys n) (h : ∀ k ∈ keys m, find? m k = find? n k) : m = n := by
  induction m generalizing n with
  | nil => exact (List.map_eq_nil_iff.1 hKeys.symm).symm
  | cons e m ih =>
    obtain ⟨k, v⟩ := e
    obtain _ | ⟨⟨k', v'⟩, n⟩ := n
    · cases hKeys
    obtain ⟨hKey, hRest⟩ := List.cons.inj hKeys
    obtain rfl : k = k' := hKey
    obtain ⟨hHead, hTail⟩ := List.pairwise_cons.1 hApart
    obtain ⟨hFirst, hOthers⟩ := List.forall_mem_cons.1 h
    rw [find?_cons, find?_cons, if_pos BEq.rfl, if_pos BEq.rfl] at hFirst
    obtain rfl := Option.some.inj hFirst
    rw [ih hTail hRest]
    intro j hj
    have hOther := hOthers j hj
    rw [find?_cons, find?_cons, hHead j hj] at hOther
    exact hOther

end LookUps

/-! ### Keys that are told apart -/

section Keys

variable [LawfulBEq α]

/-- An insertion keeps the keys, or adds one that was not there. -/
theorem keys_insert (m : OrderedMap α β) (key : α) (value : β) :
    keys (insert m key value) = keys m ∨
      key ∉ keys m ∧ keys (insert m key value) = keys m ++ [key] := by
  induction m with
  | nil => right; simp [keys, insert]
  | cons e r ih =>
    obtain ⟨k, v⟩ := e
    by_cases h : key = k
    · subst h
      left
      simp [insert, keys]
    · have hInsert : insert ((k, v) :: r) key value = (k, v) :: insert r key value := by
        simp [insert, h]
      rw [hInsert]
      simp only [keys, List.map_cons] at ih ⊢
      rcases ih with hSame | ⟨hNew, hAdded⟩
      · left
        rw [hSame]
      · right
        refine ⟨?_, by rw [hAdded]; rfl⟩
        simp only [List.mem_cons, not_or]
        exact ⟨h, hNew⟩

theorem nodup_keys_insert {m : OrderedMap α β} (h : (keys m).Nodup) (key : α) (value : β) :
    (keys (insert m key value)).Nodup := by
  rcases keys_insert m key value with hSame | ⟨hNew, hAdded⟩
  · rwa [hSame]
  · rw [hAdded]
    rw [← List.concat_eq_append]
    exact h.concat hNew

/-- The last of two values for a key counts. -/
theorem insert_insert (m : OrderedMap α β) (key : α) (first second : β) :
    insert (insert m key first) key second = insert m key second := by
  induction m with
  | nil => simp [insert]
  | cons e r ih =>
    obtain ⟨k, v⟩ := e
    by_cases h : key = k
    · simp [insert, h]
    · simp [insert, h, ih]

/-- The keys of a map made of a list of entries differ. -/
theorem nodup_keys_ofList (entries : List (α × β)) : (keys (ofList entries)).Nodup := by
  suffices h : ∀ (m : OrderedMap α β), (keys m).Nodup →
      (keys (entries.foldl (fun m e => insert m e.1 e.2) m)).Nodup from h [] List.nodup_nil
  induction entries with
  | nil => exact fun m h => h
  | cons e r ih => exact fun m h => ih _ (nodup_keys_insert h e.1 e.2)

theorem mem_of_mem_ofList {entries : List (α × β)} {e : α × β} (h : e ∈ ofList entries) :
    e ∈ entries := by
  suffices hFold : ∀ (m : OrderedMap α β),
      e ∈ entries.foldl (fun m e => insert m e.1 e.2) m → e ∈ m ∨ e ∈ entries by
    simpa using hFold [] h
  clear h
  induction entries with
  | nil => exact fun m h => .inl h
  | cons d r ih =>
    intro m h
    rcases ih _ h with hOld | hRest
    · rcases mem_of_mem_insert hOld with hOld | rfl
      · exact .inl hOld
      · exact .inr List.mem_cons_self
    · exact .inr (List.mem_cons_of_mem _ hRest)

/-! ### Up to order -/

theorem find?_eq_none_iff (m : OrderedMap α β) (key : α) : find? m key = none ↔ key ∉ keys m := by
  induction m with
  | nil => simp [keys]
  | cons e r ih =>
    obtain ⟨k, v⟩ := e
    rw [find?_cons]
    by_cases h : key = k
    · simp [h, keys]
    · rw [if_neg (by simpa using h), ih]
      simp [h, keys]

/-- A new key is added at the end. -/
theorem insert_of_notMem {m : OrderedMap α β} {key : α} (h : key ∉ keys m) (value : β) :
    insert m key value = m ++ [(key, value)] := by
  induction m with
  | nil => rfl
  | cons e r ih =>
    obtain ⟨k, v⟩ := e
    simp only [keys, List.map_cons, List.mem_cons, not_or] at h
    rw [insert, if_neg (by simpa using h.1), ih h.2]
    rfl

/-- Entries are a map as they stand when their keys differ. -/
theorem ofList_eq_self_iff {entries : List (α × β)} :
    ofList entries = entries ↔ (keys entries).Nodup := by
  refine ⟨fun h => h ▸ nodup_keys_ofList entries, fun h => ?_⟩
  suffices hFold : ∀ (m : OrderedMap α β), (keys (m ++ entries)).Nodup →
      entries.foldl (fun m e => insert m e.1 e.2) m = m ++ entries from hFold [] h
  clear h
  induction entries with
  | nil => simp
  | cons e r ih =>
    intro m h
    have hNew : e.1 ∉ keys m := by
      rw [keys, List.map_append, List.map_cons] at h
      exact fun hMem => List.disjoint_of_nodup_append h hMem List.mem_cons_self
    rw [List.foldl_cons, insert_of_notMem hNew, ih _ (by simpa using h), List.append_assoc]
    rfl

theorem insert_eq_map {m : OrderedMap α β} {key : α} (hDistinct : (keys m).Nodup)
    (h : key ∈ keys m) (value : β) :
    insert m key value = m.map fun e => if key == e.1 then (e.1, value) else e := by
  induction m with
  | nil => simp [keys] at h
  | cons e r ih =>
    obtain ⟨k, v⟩ := e
    obtain ⟨hNew, hRest⟩ := List.nodup_cons.1 hDistinct
    rw [insert, List.map_cons]
    by_cases hKey : key = k
    · subst hKey
      have hSelf : r.map (fun e => if key == e.1 then (e.1, value) else e) = r := by
        conv_rhs => rw [← List.map_id r]
        refine List.map_congr_left fun e he => ?_
        have hNe : key ≠ e.1 := fun hEq => hNew (hEq ▸ mem_keys_of_mem he)
        rw [if_neg (by simpa using hNe)]
        rfl
      simp [hSelf]
    · have hMem : key ∈ keys r := by
        rcases List.mem_cons.1 h with hEq | hMem
        · exact absurd hEq hKey
        · exact hMem
      rw [if_neg (by simpa using hKey), if_neg (by simpa using hKey), ih hRest hMem]

theorem erase_eq_filter (m : OrderedMap α β) (key : α) :
    erase m key = m.filter fun e => !(key == e.1) := by
  induction m with
  | nil => rfl
  | cons e r ih =>
    obtain ⟨k, v⟩ := e
    rw [erase, List.filter_cons, ih]
    by_cases h : key = k <;> simp [h]

/-- What is found is an entry. -/
theorem mem_of_find? {m : OrderedMap α β} {key : α} {value : β} (h : find? m key = some value) :
    (key, value) ∈ m := by
  obtain ⟨k, hKey, hMem⟩ := exists_mem_of_find? h
  rwa [eq_of_beq hKey]

/-- Where the keys differ, each entry is found by its key. -/
theorem find?_of_mem {m : OrderedMap α β} {key : α} {value : β} (hDistinct : (keys m).Nodup)
    (h : (key, value) ∈ m) : find? m key = some value := by
  refine find?_of_mem_of_pairwise (hDistinct.imp fun {k j} hNe => ?_) h
  simpa using hNe.symm

section Perm

variable {m others : OrderedMap α β} {key : α} {old : β} (hPerm : m.Perm ((key, old) :: others))
  (hDistinct : (keys m).Nodup)
include hPerm hDistinct

omit [BEq α] [LawfulBEq α] in
theorem notMem_keys_others : key ∉ keys others := by
  have hKeys : (key :: keys others).Nodup := (hPerm.map Prod.fst).nodup_iff.1 hDistinct
  exact (List.nodup_cons.1 hKeys).1

/-- An insertion changes the value of a key among entries in any order. -/
theorem insert_perm (value : β) : (insert m key value).Perm ((key, value) :: others) := by
  have hMem : key ∈ keys m :=
    mem_keys_of_mem (hPerm.symm.subset (List.mem_cons_self ..))
  have hSelf : others.map (fun e => if key == e.1 then (e.1, value) else e) = others := by
    conv_rhs => rw [← List.map_id others]
    refine List.map_congr_left fun e he => ?_
    have hNe : key ≠ e.1 := fun hEq =>
      notMem_keys_others hPerm hDistinct (hEq ▸ mem_keys_of_mem he)
    rw [if_neg (by simpa using hNe)]
    rfl
  rw [insert_eq_map hDistinct hMem]
  refine (hPerm.map _).trans (.of_eq ?_)
  rw [List.map_cons, hSelf]
  simp

/-- What is left when a key is erased. -/
theorem erase_perm : (erase m key).Perm others := by
  have hSelf : others.filter (fun e => !(key == e.1)) = others := by
    refine List.filter_eq_self.2 fun e he => ?_
    have hNe : key ≠ e.1 := fun hEq =>
      notMem_keys_others hPerm hDistinct (hEq ▸ mem_keys_of_mem he)
    simpa using hNe
  rw [erase_eq_filter]
  refine (hPerm.filter _).trans (.of_eq ?_)
  rw [List.filter_cons_of_neg (by simp), hSelf]

end Perm

/-! ### Maps of lists of entries -/

section OfList

variable {key : α} {value : β}

omit [BEq α] [LawfulBEq α] in
/-- Entries keep their keys when only their values change. -/
theorem keys_map {g : α × β → α × γ} (h : ∀ e, (g e).1 = e.1) (entries : List (α × β)) :
    keys (entries.map g) = keys entries := by
  rw [keys, keys, List.map_map]
  exact List.map_congr_left fun e _ => h e

omit [LawfulBEq α] in
theorem ofList_concat (entries : List (α × β)) (e : α × β) :
    ofList (entries ++ [e]) = insert (ofList entries) e.1 e.2 := by
  rw [ofList, List.foldl_append]
  rfl

/-- Of several entries of a key the last one counts. -/
theorem find?_ofList (entries : List (α × β)) (key : α) :
    find? (ofList entries) key = find? entries.reverse key := by
  induction entries using List.reverseRecOn with
  | nil => rfl
  | append_singleton entries e ih =>
    rw [ofList_concat, find?_insert, ih, List.reverse_append, List.reverse_singleton,
      List.singleton_append, find?_cons]

/-- An entry that none of its key follows is the one that counts. -/
theorem find?_ofList_of_last {before after : List (α × β)} (h : key ∉ keys after) :
    find? (ofList (before ++ (key, value) :: after)) key = some value := by
  have hNone : find? after.reverse key = none := by
    rw [find?_eq_none_iff, keys, List.map_reverse, List.mem_reverse]
    exact h
  rw [find?_ofList, List.reverse_append, List.reverse_cons, List.append_assoc, find?_append, hNone,
    Option.none_or, List.singleton_append, find?_cons, if_pos BEq.rfl]

/-- The keys stand in the order in which they first appear. -/
theorem keys_ofList (entries : List (α × β)) :
    keys (ofList entries) = (keys entries).eraseDups := by
  induction entries using List.reverseRecOn with
  | nil => rfl
  | append_singleton entries e ih =>
    have hKeys : keys (entries ++ [e]) = keys entries ++ [e.1] := List.map_append
    have hMem : e.1 ∈ keys (ofList entries) ↔ e.1 ∈ keys entries := by
      rw [ih, List.mem_eraseDups]
    rw [ofList_concat, hKeys, List.eraseDups_append, ← ih]
    by_cases h : e.1 ∈ keys entries
    · obtain ⟨old, hOld⟩ := Option.ne_none_iff_exists'.1
        (mt (find?_eq_none_iff (ofList entries) e.1).1 (not_not.2 (hMem.2 h)))
      have hNothing : [e.1].removeAll (keys entries) = [] := by simp [List.removeAll, h]
      rw [keys_insert_of_find? hOld, hNothing, List.eraseDups_nil, List.append_nil]
    · have hNew : [e.1].removeAll (keys entries) = [e.1] := by simp [List.removeAll, h]
      rw [insert_of_notMem (mt hMem.1 h), hNew]
      exact List.map_append

end OfList
end Keys

end KubeCompose.OrderedMap
