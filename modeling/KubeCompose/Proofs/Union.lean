import KubeCompose.Proofs.Places
import KubeCompose.Proofs.Records

/-!
# Merging as a union of values

A value that is laid over another one gives their union, in which the upper one is preferred. Two
values meet at the paths of keys at which both have something, and the union is described there:
mappings that meet are united, with the keys of the lower one in their places and the new ones
behind, and of other values that meet the upper one stays.

The description fits one value only. So whatever fits it is what merging gives, which is how merging
a value with itself, or once more with the same value, is seen to change nothing.
-/

namespace KubeCompose.Yaml

open OrderedMap (contains find? find?_cons keys exists_find?_of_mem_keys exists_mem_of_find?
  find?_of_mem_of_pairwise eq_of_find?_eq)

variable {b m o u v w key : Yaml} {path : List Yaml} {lower upper entries : List (Yaml × Yaml)}

/-! ### Paths of keys -/

/-- The value at a path of keys, through mappings that carry no tag. -/
def under? (v : Yaml) (path : List Yaml) : Option Yaml := Revise.follow? (path.map .key) v

theorem under?_nil (v : Yaml) : v.under? [] = some v := rfl

theorem under?_map_cons (entries : List (Yaml × Yaml)) (key : Yaml) (path : List Yaml) :
    (Yaml.map entries).under? (key :: path) = (find? entries key).bind fun u => u.under? path := rfl

theorem under?_cons_of_not_map (h : v.isPlainMap = false) (key : Yaml) (path : List Yaml) :
    v.under? (key :: path) = none := by
  cases v with
  | map entries => cases h
  | _ => rfl

theorem exists_of_under?_cons (h : v.under? (key :: path) = some u) :
    ∃ entries w, v = .map entries ∧ find? entries key = some w ∧ w.under? path = some u := by
  cases hMap : v.isPlainMap with
  | false =>
    rw [under?_cons_of_not_map hMap] at h
    cases h
  | true =>
    obtain ⟨entries, rfl⟩ := exists_of_isPlainMap hMap
    obtain ⟨w, hFind, hRest⟩ := Option.bind_eq_some_iff.1 h
    exact ⟨entries, w, rfl, hFind, hRest⟩

theorem keysDiffer_of_under? (hv : v.keysDiffer = true) (h : v.under? path = some u) :
    u.keysDiffer = true := by
  induction path generalizing v with
  | nil => exact Option.some.inj h ▸ hv
  | cons key path ih =>
    obtain ⟨entries, w, rfl, hFind, hRest⟩ := exists_of_under?_cons h
    rw [keysDiffer] at hv
    exact ih (keysDiffer_of_find? hv hFind) hRest

/-! ### The union of two values -/

/-- Two values meet at a path where both have something: they have mappings all the way to it. The
keys on the way are values of which no mapping has a key twice, as in the two values. -/
structure Meet (b o : Yaml) (path : List Yaml) (w v : Yaml) : Prop where
  keysDiffer : ∀ key ∈ path, key.keysDiffer = true
  lower : b.under? path = some w
  upper : o.under? path = some v

/-- What entries have that unite those of two mappings: the keys of the lower mapping in their
places, then the new keys of the upper one in its order, and at each key of only one mapping the
value that it has there. -/
structure Unites (lower upper entries : List (Yaml × Yaml)) : Prop where
  order : keys entries = keys lower ++ (keys upper).filter fun key => !contains lower key
  kept : ∀ key ∈ keys lower, contains upper key = false → find? entries key = find? lower key
  added : ∀ key ∈ keys upper, contains lower key = false → find? entries key = find? upper key

/-- Whether a value is the union of two values of which the upper one is preferred: where they meet,
two mappings are united, and any other value of the upper one, or one that meets another value than
a mapping, replaces what is there. -/
structure IsUnion (b o m : Yaml) : Prop where
  replaced : ∀ {path w v}, Meet b o path w v → (w.isPlainMap && v.isPlainMap) = false →
    m.under? path = some v
  united : ∀ {path lower upper}, Meet b o path (.map lower) (.map upper) →
    ∃ entries, m.under? path = some (.map entries) ∧ Unites lower upper entries

theorem meet_nil (b o : Yaml) : Meet b o [] b o := ⟨by simp, under?_nil b, under?_nil o⟩

theorem Meet.cons (h : Meet w v path b o) (hKey : key.keysDiffer = true)
    (hLower : find? lower key = some w) (hUpper : find? upper key = some v) :
    Meet (.map lower) (.map upper) (key :: path) b o where
  keysDiffer := List.forall_mem_cons.2 ⟨hKey, h.keysDiffer⟩
  lower := by rw [under?_map_cons, hLower, Option.bind_some, h.lower]
  upper := by rw [under?_map_cons, hUpper, Option.bind_some, h.upper]

/-- Below a key of two mappings the values of the key are united. -/
theorem IsUnion.below (h : IsUnion (.map lower) (.map upper) (.map entries))
    (hKey : key.keysDiffer = true) (hLower : find? lower key = some w)
    (hUpper : find? upper key = some v) (hFind : find? entries key = some u) : IsUnion w v u where
  replaced hMeet hNot := by
    have hAt := h.replaced (hMeet.cons hKey hLower hUpper) hNot
    rwa [under?_map_cons, hFind, Option.bind_some] at hAt
  united hMeet := by
    have hAt := h.united (hMeet.cons hKey hLower hUpper)
    rwa [under?_map_cons, hFind, Option.bind_some] at hAt

/-! ### Merging unites -/

theorem under?_null (path : List Yaml) : (Yaml.null.under? path).getD .null = .null := by
  cases path <;> rfl

/-- What the upper value has at a path is laid over what the lower one has there, which may be
nothing. -/
theorem under?_merge (ho : o.keysDiffer = true) (hPath : ∀ key ∈ path, key.keysDiffer = true)
    (hv : o.under? path = some v) :
    (merge b o).under? path = some (merge ((b.under? path).getD .null) v) := by
  induction path generalizing b o with
  | nil =>
    obtain rfl := Option.some.inj hv
    rfl
  | cons key path ih =>
    obtain ⟨hKey, hRest⟩ := List.forall_mem_cons.1 hPath
    obtain ⟨upper, x, rfl, hUpper, hx⟩ := exists_of_under?_cons hv
    rw [keysDiffer] at ho
    cases hMap : b.isPlainMap with
    | false =>
      rw [under?_cons_of_not_map hMap, Option.getD_none, merge_null,
        merge_of_not_maps (by rw [hMap, Bool.false_and]), hv]
    | true =>
      obtain ⟨lower, rfl⟩ := exists_of_isPlainMap hMap
      rw [merge, under?_map_cons, under?_map_cons, find?_mergeEntries_of_some ho hKey hUpper,
        Option.bind_some, ih (keysDiffer_of_find? ho hUpper) hRest hx]
      cases find? lower key with
      | none => rw [Option.getD_none, Option.bind_none, Option.getD_none, under?_null]
      | some y => rfl

theorem unites_mergeEntries (hUpper : entryKeysDiffer upper = true)
    (lower : List (Yaml × Yaml)) : Unites lower upper (mergeEntries lower upper) where
  order := keys_mergeEntries_eq_append hUpper
  kept key _ hNone := find?_mergeEntries_of_none hUpper (by simpa [contains] using hNone)
  added key hKey hNone := by
    obtain ⟨hDiffer, -⟩ := entryKeysDiffer_iff.1 hUpper
    obtain ⟨v, hFind⟩ := exists_find?_of_mem_keys hKey
    have hLower : find? lower key = none := by simpa [contains] using hNone
    rw [find?_mergeEntries_of_some hUpper (hDiffer.keysDiffer key hKey) hFind, hLower, hFind,
      Option.getD_none, merge_null]

theorem isUnion_merge (ho : o.keysDiffer = true) (b : Yaml) : IsUnion b o (merge b o) where
  replaced hMeet hNot := by
    rw [under?_merge ho hMeet.keysDiffer hMeet.upper, hMeet.lower, Option.getD_some,
      merge_of_not_maps hNot]
  united {path lower upper} hMeet := by
    have hUpper := keysDiffer_of_under? ho hMeet.upper
    rw [keysDiffer] at hUpper
    refine ⟨mergeEntries lower upper, ?_, unites_mergeEntries hUpper lower⟩
    rw [under?_merge ho hMeet.keysDiffer hMeet.upper, hMeet.lower, Option.getD_some, merge]

/-- The keys of each mapping in a merged value differ. -/
theorem keysDiffer_merge (hb : b.keysDiffer = true) (ho : o.keysDiffer = true) :
    (merge b o).keysDiffer = true := by
  induction b using inductionOnParts generalizing o with
  | map lower ih =>
    cases o with
    | map upper =>
      rw [keysDiffer] at hb ho
      obtain ⟨hLower, hValues⟩ := entryKeysDiffer_iff.1 hb
      have hDiffer := differing_keys_mergeEntries ho hLower
      rw [merge, keysDiffer, entryKeysDiffer_iff]
      refine ⟨hDiffer, fun e he => ?_⟩
      have hKey := hDiffer.keysDiffer e.1 (OrderedMap.mem_keys_of_mem he)
      have hFind := find?_of_mem_of_pairwise hDiffer.pairwise_symm he
      cases hUpper : find? upper e.1 with
      | none =>
        rw [find?_mergeEntries_of_none ho hUpper] at hFind
        exact keysDiffer_of_find? hb hFind
      | some v =>
        have hv := keysDiffer_of_find? ho hUpper
        rw [find?_mergeEntries_of_some ho hKey hUpper, Option.some.injEq] at hFind
        rw [← hFind]
        cases hw : find? lower e.1 with
        | none => rwa [Option.getD_none, merge_null]
        | some w =>
          obtain ⟨k, -, hMem⟩ := exists_mem_of_find? hw
          exact (ih (k, w) hMem).2 (hValues (k, w) hMem) hv
    | _ => rwa [merge_of_not_maps rfl]
  | _ => rwa [merge_of_not_maps rfl]

/-! ### There is one union -/

theorem IsUnion.eq_of_not_maps (h : IsUnion b o m) (hNot : (b.isPlainMap && o.isPlainMap) = false) :
    m = o :=
  Option.some.inj (h.replaced (meet_nil b o) hNot)

/-- A union is what merging gives. -/
theorem IsUnion.eq_merge (hb : b.keysDiffer = true) (ho : o.keysDiffer = true)
    (h : IsUnion b o m) : m = merge b o := by
  induction b using inductionOnParts generalizing o m with
  | map lower ih =>
    cases o with
    | map upper =>
      obtain ⟨entries, hAt, hUnites⟩ := h.united (meet_nil _ _)
      obtain rfl : m = .map entries := Option.some.inj hAt
      rw [keysDiffer] at hb ho
      obtain ⟨hLower, hValues⟩ := entryKeysDiffer_iff.1 hb
      have hMerged := unites_mergeEntries ho lower
      have hKeys : keys entries = keys (mergeEntries lower upper) :=
        hUnites.order.trans hMerged.order.symm
      have hDiffer : Differing (keys entries) := hKeys ▸ differing_keys_mergeEntries ho hLower
      -- the keys are those of the merged mapping, so it is left to compare what is found for them
      rw [merge, eq_of_find?_eq hDiffer.pairwise_symm hKeys]
      intro key hMem
      have hKey := hDiffer.keysDiffer key hMem
      obtain ⟨x, hx⟩ := exists_find?_of_mem_keys hMem
      rw [hUnites.order, List.mem_append, List.mem_filter] at hMem
      rcases hMem with hOld | ⟨hNew, hNone⟩
      · cases hUpper : find? upper key with
        | none =>
          have hNone : contains upper key = false := by simp [contains, hUpper]
          rw [hUnites.kept key hOld hNone, hMerged.kept key hOld hNone]
        | some v =>
          obtain ⟨w, hw⟩ := exists_find?_of_mem_keys hOld
          obtain ⟨k, -, hEntry⟩ := exists_mem_of_find? hw
          have hBelow := h.below hKey hw hUpper hx
          rw [find?_mergeEntries_of_some ho hKey hUpper, hw, hx, Option.getD_some,
            (ih (k, w) hEntry).2 (hValues (k, w) hEntry) (keysDiffer_of_find? ho hUpper) hBelow]
      · have hNone : contains lower key = false := by simpa using hNone
        rw [hUnites.added key hNew hNone, hMerged.added key hNew hNone]
    | _ => rw [h.eq_of_not_maps rfl, merge_of_not_maps rfl]
  | _ => rw [h.eq_of_not_maps rfl, merge_of_not_maps rfl]

/-! ### Merging once more -/

/-- Entries stay as they are when their mapping has all keys of the upper one. -/
theorem unites_self (h : ∀ key ∈ keys upper, contains entries key = true) :
    Unites entries upper entries where
  order := by
    rw [List.filter_eq_nil_iff.2 fun key hKey => by simp [h key hKey], List.append_nil]
  kept _ _ _ := rfl
  added key hKey hNone := by
    rw [h key hKey] at hNone
    cases hNone

theorem contains_of_mem_keys (h : key ∈ keys entries) : contains entries key = true := by
  obtain ⟨v, hFind⟩ := exists_find?_of_mem_keys h
  rw [contains, hFind, Option.isSome_some]

theorem isUnion_self (b : Yaml) : IsUnion b b b where
  replaced hMeet _ := hMeet.upper
  united hMeet := by
    obtain rfl := Yaml.map.inj (Option.some.inj (hMeet.lower.symm.trans hMeet.upper))
    exact ⟨_, hMeet.lower, unites_self fun key hKey => contains_of_mem_keys hKey⟩

/-- A mapping that comes of laying another one over a value has all keys of that mapping. -/
theorem contains_of_merge_eq_map (hUpper : entryKeysDiffer upper = true)
    (h : merge w (.map upper) = .map entries) (hKey : key ∈ keys upper) :
    contains entries key = true := by
  cases hMap : w.isPlainMap with
  | false =>
    rw [merge_of_not_maps (by rw [hMap, Bool.false_and])] at h
    rw [← Yaml.map.inj h]
    exact contains_of_mem_keys hKey
  | true =>
    obtain ⟨lower, rfl⟩ := exists_of_isPlainMap hMap
    obtain ⟨hDiffer, -⟩ := entryKeysDiffer_iff.1 hUpper
    obtain ⟨v, hFind⟩ := exists_find?_of_mem_keys hKey
    rw [merge] at h
    rw [← Yaml.map.inj h, contains,
      find?_mergeEntries_of_some hUpper (hDiffer.keysDiffer key hKey) hFind, Option.isSome_some]

/-- What was laid over a value is in the result, which is its own union with it. -/
theorem isUnion_merge_self (ho : o.keysDiffer = true) (b : Yaml) :
    IsUnion (merge b o) o (merge b o) where
  replaced {path w v} hMeet hNot := by
    have hAt := under?_merge (b := b) ho hMeet.keysDiffer hMeet.upper
    have hw := Option.some.inj (hMeet.lower.symm.trans hAt)
    cases v with
    | map upper =>
      rw [hw, isPlainMap_merge_map] at hNot
      cases hNot
    | _ => rw [hAt, merge_of_not_maps (by simp [isPlainMap])]
  united {path entries upper} hMeet := by
    have hAt := under?_merge (b := b) ho hMeet.keysDiffer hMeet.upper
    have hw := Option.some.inj (hMeet.lower.symm.trans hAt)
    have hUpper := keysDiffer_of_under? ho hMeet.upper
    rw [keysDiffer] at hUpper
    refine ⟨entries, hMeet.lower, unites_self fun key hKey => ?_⟩
    exact contains_of_merge_eq_map hUpper hw.symm hKey

/-- Of two values in which the keys of each mapping differ, merging gives the one union in which the
upper value is preferred. A value that is laid over itself changes nothing, nor does one that is
laid over the same value a second time. -/
theorem merge_unites_and_settles (hb : b.keysDiffer = true) (ho : o.keysDiffer = true) :
    (∀ m, IsUnion b o m ↔ m = merge b o) ∧ merge b b = b ∧
      merge (merge b o) o = merge b o := by
  refine ⟨fun m => ⟨fun h => h.eq_merge hb ho, fun h => h ▸ isUnion_merge ho b⟩, ?_, ?_⟩
  · exact ((isUnion_self b).eq_merge hb hb).symm
  · exact ((isUnion_merge_self ho b).eq_merge (keysDiffer_merge hb ho) ho).symm

/-- A document with a sequence, a tagged mapping and a key that is a mapping itself. -/
def standingDocument : Yaml := .map
  [(.str "registry", fields [("host", .str "localhost"), ("port", .int 5000)]),
   (.str "databaseServiceTypes", .seq [.str "mysql"]),
   (fields [("a", .int 1), ("b", .float (.zero false))], .str "x"),
   (.str "tools", .tagged "local" (fields [("docker", .str "docker")])),
   (.str "spare", .null)]

/-- A document that has the same mapping for a key, with its entries in another order. -/
def overlyingDocument : Yaml := .map
  [(.str "tools", fields [("kompose", .str "kompose")]),
   (fields [("b", .float (.zero true)), ("a", .int 1)], .seq []),
   (.str "extra", .bool true),
   (.str "registry", fields [("port", .null), ("path", .str "/team")]),
   (.str "databaseServiceTypes", .seq [])]

/-- What is made of the two. -/
def unitedDocument : Yaml := .map
  [(.str "registry",
      fields [("host", .str "localhost"), ("port", .null), ("path", .str "/team")]),
   (.str "databaseServiceTypes", .seq []),
   (fields [("a", .int 1), ("b", .float (.zero false))], .seq []),
   (.str "tools", fields [("kompose", .str "kompose")]),
   (.str "spare", .null),
   (.str "extra", .bool true)]

/-- Keys keep their places and their writing, and a tagged mapping is replaced as a whole. -/
theorem merge_unites_and_settles_documents :
    standingDocument.keysDiffer = true ∧ overlyingDocument.keysDiffer = true ∧
      (∀ m, IsUnion standingDocument overlyingDocument m ↔ m = unitedDocument) ∧
      merge standingDocument standingDocument = standingDocument ∧
      merge unitedDocument overlyingDocument = unitedDocument := by
  have hLower : standingDocument.keysDiffer = true := by decide
  have hUpper : overlyingDocument.keysDiffer = true := by decide
  have hMerge : merge standingDocument overlyingDocument = unitedDocument := by rfl
  have h := merge_unites_and_settles hLower hUpper
  rw [hMerge] at h
  exact ⟨hLower, hUpper, h⟩

end KubeCompose.Yaml
