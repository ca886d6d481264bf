import KubeCompose.Proofs.Merge
import KubeCompose.Yaml.Decode
import Mathlib.Data.List.Infix

/-!
# Merged documents and the records read from them

A document that is laid over another one decides about the paths that it names, as long as it has a
mapping wherever it goes into one. A record that is read from a document has in each field what was
read from the value of the field, wherever this stands among the others.
-/

namespace KubeCompose.Yaml

open OrderedMap (find? find?_cons)

variable {b d k v w : Yaml} {key : String} {path rest : List String}
  {lower upper entries : List (Yaml × Yaml)}

/-! ### Keys that are texts -/

theorem get?_map (entries : List (Yaml × Yaml)) (key : String) :
    (Yaml.map entries).get? key = find? entries (.str key) := by
  rw [get?, asMap?, untagged, Option.bind_some]
  simp

theorem str_beq_eq_false (h : k ≠ .str key) : (Yaml.str key == k) = false := by
  rw [Bool.eq_false_iff]
  exact fun hSame => h ((str_beq_iff key k).1 hSame)

theorem merge_of_ne_map (h : ∀ es, w ≠ .map es) (v : Yaml) : merge w v = v := by
  apply merge_of_not_maps
  cases w with
  | map entries => exact absurd rfl (h entries)
  | _ => rfl

/-! ### Paths in merged documents -/

/-- Whether there is a mapping without a tag wherever a path goes into what a document has. -/
def MapsAlong : Yaml → List String → Prop
  | _, [] => True
  | .map entries, key :: path => ∀ v, find? entries (.str key) = some v → MapsAlong v path
  | _, _ :: _ => False

theorem MapsAlong.exists_map (h : d.MapsAlong (key :: path)) :
    ∃ entries, d = .map entries ∧
      ∀ v, find? entries (.str key) = some v → v.MapsAlong path := by
  cases d with
  | map entries => exact ⟨entries, rfl, h⟩
  | _ => exact absurd h id

/-- A path goes on from the value at its first part. -/
theorem MapsAlong.append (h : d.MapsAlong path) (hAt : d.at? path = some v)
    (hRest : v.MapsAlong rest) : d.MapsAlong (path ++ rest) := by
  induction path generalizing d with
  | nil =>
    rw [at?_nil, Option.some.injEq] at hAt
    rwa [List.nil_append, hAt]
  | cons key path ih =>
    obtain ⟨entries, rfl, hEntries⟩ := h.exists_map
    intro u hFind
    rw [at?_cons, get?_map, hFind, Option.bind_some] at hAt
    exact ih (hEntries u hFind) hAt

/-- There are mappings along a path when each start of it, before its end, leads to a mapping. -/
theorem mapsAlong_of_inits
    (h : ∀ start ∈ path.dropLast.inits, ∀ u, d.at? start = some u → ∃ entries, u = .map entries) :
    d.MapsAlong path := by
  induction path generalizing d with
  | nil => trivial
  | cons key path ih =>
    obtain ⟨entries, rfl⟩ := h [] (by simp) d (at?_nil d)
    intro v hFind
    cases path with
    | nil => trivial
    | cons next path =>
      apply ih
      intro start hStart u hAt
      apply h (key :: start)
      · rw [List.dropLast_cons_cons, List.inits_cons]
        exact List.mem_cons_of_mem [] (List.mem_map_of_mem hStart)
      · rw [at?_cons, get?_map, hFind, Option.bind_some, hAt]

/-- A path that is followed in two mappings is followed in the merged one. -/
theorem at?_merge_cons (key : String) (path : List String) :
    (merge (.map lower) (.map upper)).at? (key :: path) =
      (find? (mergeEntries lower upper) (.str key)).bind fun u => u.at? path := by
  rw [merge, at?_cons, get?_map]

/-- What the upper document names is merged with what stands there in the lower one. -/
theorem at?_merge_of_some (hKeys : d.keysDiffer = true) (hUpper : d.MapsAlong path)
    (hLower : b.MapsAlong path) (hv : d.at? path = some v) (hw : b.at? path = some w) :
    (merge b d).at? path = some (merge w v) := by
  induction path generalizing b d with
  | nil =>
    rw [at?_nil, Option.some.injEq] at hv hw
    rw [at?_nil, hv, hw]
  | cons key path ih =>
    obtain ⟨upper, rfl, hUpperRest⟩ := hUpper.exists_map
    obtain ⟨lower, rfl, hLowerRest⟩ := hLower.exists_map
    rw [at?_cons, get?_map, Option.bind_eq_some_iff] at hv hw
    obtain ⟨x, hx, hv⟩ := hv
    obtain ⟨y, hy, hw⟩ := hw
    rw [keysDiffer] at hKeys
    rw [at?_merge_cons, find?_mergeEntries_of_some hKeys rfl hx, hy, Option.getD_some,
      Option.bind_some]
    exact ih (keysDiffer_of_find? hKeys hx) (hUpperRest x hx) (hLowerRest y hy) hv hw

/-- What the upper document does not name is left of the lower one. -/
theorem at?_merge_of_none (hKeys : d.keysDiffer = true) (hUpper : d.MapsAlong path)
    (hLower : b.MapsAlong path) (hv : d.at? path = none) (hw : b.at? path = some w) :
    (merge b d).at? path = some w := by
  induction path generalizing b d with
  | nil => simp at hv
  | cons key path ih =>
    obtain ⟨upper, rfl, hUpperRest⟩ := hUpper.exists_map
    obtain ⟨lower, rfl, hLowerRest⟩ := hLower.exists_map
    rw [at?_cons, get?_map, Option.bind_eq_some_iff] at hw
    obtain ⟨y, hy, hw⟩ := hw
    rw [at?_cons, get?_map] at hv
    rw [keysDiffer] at hKeys
    rw [at?_merge_cons]
    cases hx : find? upper (.str key) with
    | none => rw [find?_mergeEntries_of_none hKeys hx, hy, Option.bind_some, hw]
    | some x =>
      rw [hx, Option.bind_some] at hv
      rw [find?_mergeEntries_of_some hKeys rfl hx, hy, Option.getD_some, Option.bind_some]
      exact ih (keysDiffer_of_find? hKeys hx) (hUpperRest x hx) (hLowerRest y hy) hv hw

/-! ### Fields of records -/

namespace Decode

variable {σ α β : Type} {known seen : List String} {set : σ → String → Yaml → Except DecodeError σ}
  {name type : String} {default r r' : σ} {decode : Decoder σ} {leaf : Decoder α} {get : σ → α}
  {inner : Decoder β} {get' : α → β}

/-- A field of a record: it has what is read from its value, and no other field changes it. -/
structure IsField (known : List String) (set : σ → String → Yaml → Except DecodeError σ)
    (name : String) (leaf : Decoder α) (get : σ → α) : Prop where
  isKnown : name ∈ known
  here : ∀ r v r', set r name v = .ok r' → leaf v = .ok (get r')
  other : ∀ g ∈ known, g ≠ name → ∀ r v r', set r g v = .ok r' → get r' = get r

section IsField

variable (h : IsField known set name leaf get)
include h

/-- A field that was seen is not read once more. -/
theorem IsField.of_seen (hSeen : name ∈ seen)
    (hRead : fieldsFrom known set seen r entries = .ok r') : get r' = get r := by
  induction entries generalizing seen r with
  | nil => rw [← Except.ok.inj hRead]
  | cons e entries ih =>
    obtain ⟨k, v⟩ := e
    rw [fieldsFrom] at hRead
    obtain ⟨g, -, hRead⟩ := exists_of_bind_eq_ok hRead
    split at hRead
    · rename_i hKnown
      split at hRead
      · cases hRead
      · rename_i hNew
        obtain ⟨s, hSet, hRead⟩ := exists_of_bind_eq_ok hRead
        have hOther : g ≠ name := by
          rintro rfl
          exact hNew hSeen
        rw [ih (List.mem_cons_of_mem g hSeen) hRead, h.other g hKnown hOther _ _ _ hSet]
    · exact ih hSeen hRead

theorem IsField.of_fieldsFrom (hFind : find? entries (.str name) = some v)
    (hRead : fieldsFrom known set seen r entries = .ok r') : leaf v = .ok (get r') := by
  induction entries generalizing seen r with
  | nil => simp at hFind
  | cons e entries ih =>
    obtain ⟨k, u⟩ := e
    rw [fieldsFrom] at hRead
    obtain ⟨g, hName, hRead⟩ := exists_of_bind_eq_ok hRead
    rw [find?_cons] at hFind
    by_cases hKey : k = .str name
    · subst hKey
      obtain rfl : name = g := Except.ok.inj hName
      rw [if_pos (str_beq_self name), Option.some.injEq] at hFind
      subst hFind
      rw [if_pos h.isKnown] at hRead
      split at hRead
      · cases hRead
      · obtain ⟨s, hSet, hRead⟩ := exists_of_bind_eq_ok hRead
        rw [h.of_seen List.mem_cons_self hRead]
        exact h.here _ _ _ hSet
    · -- another key may give the same name by a tag; the field is then refused where it comes
      rw [str_beq_eq_false hKey, if_neg Bool.false_ne_true] at hFind
      split at hRead
      · split at hRead
        · cases hRead
        · obtain ⟨s, -, hRead⟩ := exists_of_bind_eq_ok hRead
          exact ih hFind hRead
      · exact ih hFind hRead

/-- A record has in a field what is read from the value of the field. -/
theorem IsField.of_record (hRead : record type known default set v = .ok r)
    (hGet : v.get? name = some w) : leaf w = .ok (get r) := by
  rw [get?, asMap?] at hGet
  rw [record] at hRead
  cases hMap : v.untagged with
  | map entries =>
    rw [hMap] at hGet hRead
    exact h.of_fieldsFrom hGet hRead
  | _ => simp [hMap] at hGet

end IsField

/-- What is read from a document has in some part what is read from the value at a path. -/
def Reads (decode : Decoder σ) (path : List String) (leaf : Decoder α) (get : σ → α) : Prop :=
  ∀ v r u, decode v = .ok r → v.at? path = some u → leaf u = .ok (get r)

theorem IsField.reads (h : IsField known set name leaf get) :
    Reads (record type known default set) [name] leaf get := by
  intro v r u hRead hAt
  rw [at?_cons, Option.bind_eq_some_iff] at hAt
  obtain ⟨w, hGet, hHere⟩ := hAt
  rw [at?_nil, Option.some.injEq] at hHere
  exact hHere ▸ h.of_record hRead hGet

/-- Parts of parts are read in the same way. -/
theorem Reads.append (h : Reads decode path leaf get) (hRest : Reads leaf rest inner get') :
    Reads decode (path ++ rest) inner (get' ∘ get) := by
  intro v r u hRead hAt
  rw [at?_append, Option.bind_eq_some_iff] at hAt
  obtain ⟨w, hGet, hAt⟩ := hAt
  exact hRest w (get r) u (h v r w hRead hGet) hAt

/-- What is written in a document at a path is a part of what the document is written for. -/
def Writes (encode : σ → Yaml) (path : List String) (write : α → Yaml) (get : σ → α) : Prop :=
  ∀ r, (encode r).MapsAlong path ∧ (encode r).at? path = some (write (get r))

variable {encode : σ → Yaml} {write : α → Yaml} {write' : β → Yaml}

theorem writes_of_fields
    (h : ∀ r, ∃ es, encode r = fields es ∧ find? es name = some (write (get r))) :
    Writes encode [name] write get := by
  intro r
  obtain ⟨es, hEncode, hFind⟩ := h r
  rw [hEncode]
  constructor
  · exact fun _ _ => trivial
  · rw [at?_cons, get?_fields, hFind, Option.bind_some, at?_nil]

theorem Writes.append (h : Writes encode path write get) (hRest : Writes write rest write' get') :
    Writes encode (path ++ rest) write' (get' ∘ get) := by
  intro r
  obtain ⟨hAlong, hAt⟩ := h r
  obtain ⟨hAlongRest, hAtRest⟩ := hRest (get r)
  constructor
  · exact hAlong.append hAt hAlongRest
  · rw [at?_append, hAt, Option.bind_some, hAtRest, Function.comp]

section Merged

variable (hReads : Reads decode path leaf get) (hWrites : Writes encode path write get)
  (hKeys : d.keysDiffer = true) (hAlong : d.MapsAlong path)
  (hMerged : decode (merge (encode r) d) = .ok r')
include hReads hWrites hKeys hAlong hMerged

/-- What a document names is read from it after it was laid over another one. -/
theorem Reads.of_merge_named (hPlain : ∀ a es, write a ≠ .map es) (hv : d.at? path = some v) :
    leaf v = .ok (get r') := by
  obtain ⟨hAlongLower, hLower⟩ := hWrites r
  apply hReads _ _ v hMerged
  rw [at?_merge_of_some hKeys hAlong hAlongLower hv hLower, merge_of_ne_map (hPlain _)]

/-- What a document does not name is read from the one below it. -/
theorem Reads.of_merge_unnamed (hv : d.at? path = none) :
    leaf (write (get r)) = .ok (get r') := by
  obtain ⟨hAlongLower, hLower⟩ := hWrites r
  apply hReads _ _ _ hMerged
  exact at?_merge_of_none hKeys hAlong hAlongLower hv hLower

end Merged

end Decode

end KubeCompose.Yaml
