import KubeCompose.Proofs.Revise

/-!
# Changes apart from one another

What is found at a path after a change at another one. A change at a path is seen there and below,
and nowhere else: paths that part at a key do not see each other's changes, and two such changes can
be made in either order.
-/

namespace KubeCompose

/-! ### Maps -/

namespace OrderedMap

variable {α β : Type} [BEq α] {key other : α}

theorem find?_modify (m : OrderedMap α β) (key : α) (f : β → β) :
    find? (modify m key f) key = (find? m key).map f := by
  induction m with
  | nil => rfl
  | cons e r ih =>
    obtain ⟨k, v⟩ := e
    rw [modify, find?_cons]
    by_cases h : (key == k) = true
    · rw [if_pos h, find?_cons, if_pos h, if_pos h]
      rfl
    · rw [if_neg h, find?_cons, if_neg h, if_neg h, ih]

theorem modify_modify (m : OrderedMap α β) (key : α) (f g : β → β) :
    modify (modify m key f) key g = modify m key (g ∘ f) := by
  induction m with
  | nil => rfl
  | cons e r ih =>
    obtain ⟨k, v⟩ := e
    rw [modify, modify]
    by_cases h : (key == k) = true
    · rw [if_pos h, if_pos h, modify, if_pos h]
      rfl
    · rw [if_neg h, if_neg h, modify, if_neg h, ih]

/-- Two keys of which no entry has both. -/
def Apart (key other : α) : Prop := ∀ k, (key == k) = true → (other == k) = false

theorem Apart.symm (h : Apart key other) : Apart other key := by
  intro k hOther
  rw [Bool.eq_false_iff]
  intro hKey
  rw [h k hKey] at hOther
  exact Bool.false_ne_true hOther

section Apart

variable (h : Apart key other)
include h

theorem find?_modify_apart (m : OrderedMap α β) (f : β → β) :
    find? (modify m other f) key = find? m key := by
  induction m with
  | nil => rfl
  | cons e r ih =>
    obtain ⟨k, v⟩ := e
    rw [modify]
    by_cases hOther : (other == k) = true
    · have hKey : (key == k) = false := h.symm k hOther
      rw [if_pos hOther, find?_cons, find?_cons, hKey]
      rfl
    · rw [if_neg hOther, find?_cons, find?_cons, ih]

theorem modify_comm (m : OrderedMap α β) (f g : β → β) :
    modify (modify m other g) key f = modify (modify m key f) other g := by
  induction m with
  | nil => rfl
  | cons e r ih =>
    obtain ⟨k, v⟩ := e
    by_cases hKey : (key == k) = true
    · have hOther : (other == k) = false := h k hKey
      simp [modify, hKey, hOther]
    · by_cases hOther : (other == k) = true
      · simp [modify, hKey, hOther]
      · simp [modify, hKey, hOther, ih]

theorem insert_modify (m : OrderedMap α β) (hRefl : (key == key) = true) (value : β) (f : β → β) :
    insert (modify m other f) key value = modify (insert m key value) other f := by
  induction m with
  | nil => simp [insert, modify, h key hRefl]
  | cons e r ih =>
    obtain ⟨k, v⟩ := e
    by_cases hKey : (key == k) = true
    · have hOther : (other == k) = false := h k hKey
      simp [insert, modify, hKey, hOther]
    · by_cases hOther : (other == k) = true
      · simp [insert, modify, hKey, hOther]
      · simp [insert, modify, hKey, hOther, ih]

end Apart

theorem insert_self_insert (m : OrderedMap α β) (hRefl : (key == key) = true) (value : β) :
    insert (insert m key value) key value = insert m key value := by
  induction m with
  | nil => simp [insert, hRefl]
  | cons e r ih =>
    obtain ⟨k, v⟩ := e
    by_cases hKey : (key == k) = true
    · simp [insert, hKey]
    · simp [insert, hKey, ih]

end OrderedMap

/-! ### Keys of documents -/

namespace Yaml

variable {key other : String}

theorem apart_str (h : key ≠ other) : OrderedMap.Apart (Yaml.str key) (.str other) := by
  intro k hKey
  rw [str_beq_iff] at hKey
  rw [Bool.eq_false_iff]
  intro hOther
  rw [str_beq_iff, hKey] at hOther
  exact h (Yaml.str.inj hOther)

theorem str_beq_self (s : String) : (Yaml.str s == Yaml.str s) = true := by
  rw [str_beq_iff]

theorem updateMap_updateMap (f g : List (Yaml × Yaml) → List (Yaml × Yaml)) :
    (v : Yaml) → updateMap f (updateMap g v) = updateMap (f ∘ g) v
  | .tagged tag v => by rw [updateMap, updateMap, updateMap, updateMap_updateMap f g v]
  | .map entries => by simp [updateMap]
  | .null | .bool _ | .int _ | .float _ | .str _ | .seq _ => by simp [updateMap]

theorem asMap?_updateMap (f : List (Yaml × Yaml) → List (Yaml × Yaml)) :
    (v : Yaml) → (updateMap f v).asMap? = v.asMap?.map f
  | .tagged tag v => by
    rw [updateMap]
    exact asMap?_updateMap f v
  | .map entries => by simp [updateMap, asMap?, untagged]
  | .null | .bool _ | .int _ | .float _ | .str _ | .seq _ => by
    simp [updateMap, asMap?, untagged]

/-- Changes of the entries of mappings that come to the same are one change. -/
theorem updateMap_congr {f g : List (Yaml × Yaml) → List (Yaml × Yaml)} (h : ∀ es, f es = g es)
    (v : Yaml) : updateMap f v = updateMap g v := by
  rw [funext h]

@[simp] theorem get?_updateKey (key : String) (f : Yaml → Yaml) (v : Yaml) :
    (updateKey key f v).get? key = (v.get? key).map f := by
  rw [updateKey, get?, get?, asMap?_updateMap]
  cases v.asMap? with
  | none => rfl
  | some entries => exact OrderedMap.find?_modify entries (.str key) f

theorem get?_updateKey_of_ne (h : key ≠ other) (f : Yaml → Yaml) (v : Yaml) :
    (updateKey other f v).get? key = v.get? key := by
  rw [updateKey, get?, get?, asMap?_updateMap]
  cases v.asMap? with
  | none => rfl
  | some entries => exact OrderedMap.find?_modify_apart (apart_str h) entries f

theorem updateKey_updateKey (key : String) (f g : Yaml → Yaml) (v : Yaml) :
    updateKey key f (updateKey key g v) = updateKey key (f ∘ g) v := by
  rw [updateKey, updateKey, updateKey, updateMap_updateMap]
  exact updateMap_congr (fun es => OrderedMap.modify_modify es (.str key) g f) v

theorem updateKey_comm (h : key ≠ other) (f g : Yaml → Yaml) (v : Yaml) :
    updateKey key f (updateKey other g v) = updateKey other g (updateKey key f v) := by
  rw [updateKey, updateKey, updateMap_updateMap, updateKey, updateKey, updateMap_updateMap]
  exact updateMap_congr (fun es => OrderedMap.modify_comm (apart_str h) es f g) v

theorem setKey_updateKey (h : key ≠ other) (value : Yaml) (f : Yaml → Yaml) (v : Yaml) :
    setKey key value (updateKey other f v) = updateKey other f (setKey key value v) := by
  rw [setKey, updateKey, updateMap_updateMap, setKey, updateKey, updateMap_updateMap]
  exact updateMap_congr
    (fun es => OrderedMap.insert_modify (apart_str h) es (str_beq_self key) value f) v

theorem setKey_setKey (key : String) (value v : Yaml) :
    setKey key value (setKey key value v) = setKey key value v := by
  rw [setKey, setKey, updateMap_updateMap]
  exact updateMap_congr (fun es => OrderedMap.insert_self_insert es (str_beq_self key) value) v

end Yaml

/-! ### Paths -/

namespace Revise

open Yaml (updateKey)

variable {p q : List Step} {f g : Yaml → Yaml} {v : Yaml} {path : List String}

/-- Whether two paths part at a key. -/
def partAtKey : List Step → List Step → Bool
  | .key a :: p, .key b :: q => a != b || partAtKey p q
  | .each :: p, .each :: q => partAtKey p q
  | _, _ => false

/-- A change below a path is one of what is found at the path. -/
theorem at?_changeAt (f : Yaml → Yaml) (path : List String) (rest : List Step) (v : Yaml) :
    (changeAt f (path.map .key ++ rest) v).at? path = (v.at? path).map (changeAt f rest) := by
  induction path generalizing v with
  | nil => simp
  | cons key path ih =>
    rw [List.map_cons, List.cons_append, changeAt, Yaml.at?_cons, Yaml.at?_cons,
      Yaml.get?_updateKey]
    cases v.get? key with
    | none => rfl
    | some u => exact ih u

/-- A change at a path that parts from another one is not seen there. -/
theorem at?_changeAt_of_parts (h : partAtKey (path.map .key) p = true) (f : Yaml → Yaml)
    (v : Yaml) : (changeAt f p v).at? path = v.at? path := by
  induction path generalizing p v with
  | nil => simp [partAtKey] at h
  | cons key path ih =>
    cases p with
    | nil => simp [partAtKey] at h
    | cons step p =>
      cases step with
      | each => simp [partAtKey] at h
      | key other =>
        rw [changeAt, Yaml.at?_cons, Yaml.at?_cons]
        by_cases hKey : key = other
        · subst hKey
          have hRest : partAtKey (path.map .key) p = true := by simpa [partAtKey] using h
          rw [Yaml.get?_updateKey]
          cases v.get? key with
          | none => rfl
          | some u => exact ih hRest u
        · rw [Yaml.get?_updateKey_of_ne hKey]

/-- Two changes at one path are one. -/
theorem changeAt_changeAt (f g : Yaml → Yaml) (p : List Step) (v : Yaml) :
    changeAt f p (changeAt g p v) = changeAt (f ∘ g) p v := by
  induction p generalizing v with
  | nil => rfl
  | cons step p ih =>
    cases step with
    | key key =>
      rw [changeAt, changeAt, changeAt, Yaml.updateKey_updateKey]
      congr 1
      funext u
      exact ih u
    | each =>
      cases v with
      | seq items =>
        rw [changeAt, changeAt, changeAt, List.map_map]
        congr 1
        exact List.map_congr_left fun u _ => ih u
      | _ => rfl

/-- Changes at paths that part can be made in either order. -/
theorem changeAt_comm (h : partAtKey p q = true) (f g : Yaml → Yaml) (v : Yaml) :
    changeAt f p (changeAt g q v) = changeAt g q (changeAt f p v) := by
  induction p generalizing q v with
  | nil => simp [partAtKey] at h
  | cons step p ih =>
    cases q with
    | nil => cases step <;> simp [partAtKey] at h
    | cons step' q =>
      cases step with
      | key key =>
        cases step' with
        | each => simp [partAtKey] at h
        | key other =>
          rw [changeAt, changeAt, changeAt, changeAt]
          by_cases hKey : key = other
          · subst hKey
            have hRest : partAtKey p q = true := by simpa [partAtKey] using h
            rw [Yaml.updateKey_updateKey, Yaml.updateKey_updateKey]
            congr 1
            funext u
            exact ih hRest u
          · exact Yaml.updateKey_comm hKey _ _ v
      | each =>
        cases step' with
        | key other => simp [partAtKey] at h
        | each =>
          have hRest : partAtKey p q = true := by simpa [partAtKey] using h
          cases v with
          | seq items =>
            simp only [changeAt, List.map_map]
            congr 1
            exact List.map_congr_left fun u _ => ih hRest u
          | _ => rfl

/-- Rules at paths that part from a path are not seen there. -/
theorem at?_foldl_of_parts {rules : List (List Step × (Yaml → Yaml))}
    (h : ∀ rule ∈ rules, partAtKey (path.map .key) rule.1 = true) (document : Yaml) :
    (rules.foldl (fun d (p, f) => changeAt f p d) document).at? path = document.at? path := by
  induction rules generalizing document with
  | nil => rfl
  | cons rule rules ih =>
    obtain ⟨hRule, hRules⟩ := List.forall_mem_cons.1 h
    rw [List.foldl_cons, ih hRules]
    exact at?_changeAt_of_parts hRule rule.2 document

/-- Of rules at paths that part from a path, but for one, that one is seen at the path. -/
theorem at?_foldl (path : List String) (rest : List Step) (f : Yaml → Yaml)
    (before after : List (List Step × (Yaml → Yaml)))
    (hBefore : ∀ rule ∈ before, partAtKey (path.map .key) rule.1 = true)
    (hAfter : ∀ rule ∈ after, partAtKey (path.map .key) rule.1 = true) (document : Yaml) :
    ((before ++ (path.map .key ++ rest, f) :: after).foldl (fun d (p, f) => changeAt f p d)
        document).at? path = (document.at? path).map (changeAt f rest) := by
  rw [List.foldl_append, List.foldl_cons, at?_foldl_of_parts hAfter, at?_changeAt,
    at?_foldl_of_parts hBefore]

end Revise

end KubeCompose
