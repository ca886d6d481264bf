import KubeCompose.Proofs.Passes

/-!
# Revised documents that are revised again

A daemon set that was made of a revised deployment stays as it is when it is revised again: the
passes do not look at what it has lost, and as no key of a document that was read comes twice, what
it still has is where it was looked for before.
-/

namespace KubeCompose

/-! ### Maps in which a key comes once -/

namespace OrderedMap

variable {α β : Type} [BEq α] {key other : α} {m : OrderedMap α β}

/-- Whether a key comes at most once. -/
def Once (m : OrderedMap α β) (key : α) : Prop := m.countP (fun e => key == e.1) ≤ 1

theorem once_of_find?_eq_none (h : find? m key = none) : m.countP (fun e => key == e.1) = 0 := by
  rw [List.countP_eq_zero]
  induction m with
  | nil => simp
  | cons e m ih =>
    obtain ⟨k, v⟩ := e
    rw [find?_cons] at h
    split at h
    · simp at h
    · rename_i hNe
      exact List.forall_mem_cons.2 ⟨hNe, ih h⟩

theorem countP_modify (m : OrderedMap α β) (key other : α) (f : β → β) :
    (modify m other f).countP (fun e => key == e.1) = m.countP fun e => key == e.1 := by
  induction m with
  | nil => rfl
  | cons e m ih =>
    obtain ⟨k, v⟩ := e
    rw [modify]
    split
    · rw [List.countP_cons, List.countP_cons]
    · rw [List.countP_cons, List.countP_cons, ih]

theorem countP_insert (h : Apart key other) (m : OrderedMap α β) (hRefl : (other == other) = true)
    (value : β) :
    (insert m other value).countP (fun e => key == e.1) = m.countP fun e => key == e.1 := by
  induction m with
  | nil => simp [insert, h.symm other hRefl]
  | cons e m ih =>
    obtain ⟨k, v⟩ := e
    rw [insert]
    split
    · rw [List.countP_cons, List.countP_cons]
    · rw [List.countP_cons, List.countP_cons, ih]

theorem find?_insert_apart (h : Apart key other) (m : OrderedMap α β)
    (hRefl : (other == other) = true) (value : β) :
    find? (insert m other value) key = find? m key := by
  induction m with
  | nil => simp [insert, find?_cons, h.symm other hRefl]
  | cons e m ih =>
    obtain ⟨k, v⟩ := e
    rw [insert]
    split
    · rename_i hOther
      have hKey : (key == k) = false := h.symm k hOther
      rw [find?_cons, find?_cons, hKey]
      rfl
    · rw [find?_cons, find?_cons, ih]

theorem find?_insert_self (m : OrderedMap α β) (hRefl : (key == key) = true) (value : β) :
    find? (insert m key value) key = some value := by
  induction m with
  | nil => rw [insert, find?_cons, if_pos hRefl]
  | cons e m ih =>
    obtain ⟨k, v⟩ := e
    rw [insert]
    split
    · rename_i hKey
      rw [find?_cons, if_pos hKey]
    · rename_i hNe
      rw [find?_cons, if_neg hNe, ih]

theorem Once.insert_self (h : Once m key) (hRefl : (key == key) = true) (value : β) :
    Once (insert m key value) key := by
  induction m with
  | nil => simp [insert, Once, hRefl]
  | cons e m ih =>
    obtain ⟨k, v⟩ := e
    rw [insert]
    split
    · rwa [Once, List.countP_cons] at h ⊢
    · rename_i hNe
      rw [Once, List.countP_cons, if_neg hNe] at h ⊢
      exact ih h

/-- An entry is taken out of a map, or none has the key. -/
theorem swapRemove_cases (m : OrderedMap α β) (key : α) :
    swapRemove m key = m ∨ ∃ e, (key == e.1) = true ∧ (e :: swapRemove m key).Perm m := by
  have hSplit : ∀ {m before after : OrderedMap α β}, splitAt? m key = some (before, after) →
      ∃ e, (key == e.1) = true ∧ m = before ++ e :: after := by
    intro m
    induction m with
    | nil => simp [splitAt?]
    | cons d m ih =>
      obtain ⟨k, v⟩ := d
      intro before after h
      rw [splitAt?] at h
      split at h
      · rename_i hKey
        simp only [Option.some.injEq, Prod.mk.injEq] at h
        obtain ⟨rfl, rfl⟩ := h
        exact ⟨(k, v), hKey, rfl⟩
      · cases hRest : splitAt? m key with
        | none => simp [hRest] at h
        | some p =>
          simp only [hRest, Option.map_some, Option.some.injEq, Prod.mk.injEq] at h
          obtain ⟨rfl, rfl⟩ := h
          obtain ⟨e, hKey, hEq⟩ := ih hRest
          exact ⟨e, hKey, by rw [hEq, List.cons_append]⟩
  rw [swapRemove]
  cases h : splitAt? m key with
  | none => exact .inl rfl
  | some p =>
    obtain ⟨before, after⟩ := p
    obtain ⟨e, hKey, rfl⟩ := hSplit h
    refine .inr ⟨e, hKey, ?_⟩
    cases hLast : after.getLast? with
    | none =>
      obtain rfl := List.getLast?_eq_none_iff.1 hLast
      exact (List.perm_append_singleton e before).symm
    | some last =>
      have hAfter : after.dropLast ++ [last] = after := List.dropLast_append_getLast? last hLast
      have hRest : (before ++ last :: after.dropLast).Perm (before ++ after) := by
        conv_rhs => rw [← hAfter]
        exact (List.perm_append_singleton last after.dropLast).symm.append_left before
      simp only [hLast]
      exact (hRest.cons e).trans List.perm_middle.symm

theorem Once.swapRemove (h : Once m key) (other : α) :
    Once (OrderedMap.swapRemove m other) key := by
  rw [Once] at h ⊢
  rcases swapRemove_cases m other with hSame | ⟨e, -, hPerm⟩
  · rwa [hSame]
  · have hCount := hPerm.countP_eq fun e => key == e.1
    rw [List.countP_cons] at hCount
    omega

/-- A key that comes once is found in whatever order the entries are. -/
theorem Once.find?_perm {n : OrderedMap α β} (h : Once m key) (hPerm : m.Perm n) :
    find? m key = find? n key := by
  induction hPerm with
  | nil => rfl
  | cons e hPerm ih =>
    rw [Once, List.countP_cons] at h
    obtain ⟨k, v⟩ := e
    rw [find?_cons, find?_cons, ih (Nat.le_trans (Nat.le_add_right _ _) h)]
  | swap d e m =>
    rw [Once, List.countP_cons, List.countP_cons] at h
    obtain ⟨k, v⟩ := d
    obtain ⟨j, u⟩ := e
    rw [find?_cons, find?_cons, find?_cons, find?_cons]
    split
    · rename_i hSecond
      split
      · rename_i hFirst
        rw [if_pos hFirst, if_pos hSecond] at h
        omega
      · rfl
    · rfl
  | trans hFirst hSecond ihFirst ihSecond =>
    refine (ihFirst h).trans (ihSecond ?_)
    rwa [Once, ← hFirst.countP_eq]

theorem Once.find?_swapRemove (h : Once m key) (hApart : Apart other key) :
    find? (OrderedMap.swapRemove m other) key = find? m key := by
  rcases swapRemove_cases m other with hSame | ⟨e, hOther, hPerm⟩
  · rw [hSame]
  · obtain ⟨k, v⟩ := e
    have hNe : (key == k) = false := hApart k hOther
    rw [← Once.find?_perm (h := by rwa [Once, hPerm.countP_eq]) hPerm, find?_cons, hNe,
      if_neg Bool.false_ne_true]

/-- A map in which values change while the keys stay. -/
theorem swapRemove_mapValues {f : α × β → α × β} (hKey : ∀ e, (f e).1 = e.1)
    (m : OrderedMap α β) (key : α) : swapRemove (m.map f) key = (swapRemove m key).map f := by
  have hSplit : ∀ m : OrderedMap α β, splitAt? (m.map f) key =
      (splitAt? m key).map fun p => (p.1.map f, p.2.map f) := by
    intro m
    induction m with
    | nil => rfl
    | cons e m ih =>
      have hSplitCons : ∀ (d : α × β) (r : OrderedMap α β), splitAt? (d :: r) key =
          if key == d.1 then some ([], r)
          else (splitAt? r key).map fun p => (d :: p.1, p.2) := fun _ _ => rfl
      rw [List.map_cons, hSplitCons, hSplitCons, hKey, ih]
      split
      · rfl
      · cases splitAt? m key <;> rfl
  rw [OrderedMap.swapRemove, OrderedMap.swapRemove, hSplit]
  cases splitAt? m key with
  | none => rfl
  | some p =>
    obtain ⟨before, after⟩ := p
    simp only [Option.map_some, List.getLast?_map]
    cases after.getLast? with
    | none => rfl
    | some last => simp [List.map_dropLast]

/-- Where a key comes once, a change of its value is one of every entry with that key. -/
theorem modify_eq_map (h : Once m key) (f : β → β) :
    modify m key f = m.map fun e => if key == e.1 then (e.1, f e.2) else e := by
  induction m with
  | nil => rfl
  | cons e m ih =>
    obtain ⟨k, v⟩ := e
    rw [Once, List.countP_cons] at h
    rw [modify, List.map_cons]
    split
    · rename_i hKey
      rw [if_pos hKey] at h
      have hNone : m.countP (fun e => key == e.1) = 0 := by omega
      rw [List.countP_eq_zero] at hNone
      conv_lhs => rw [← List.map_id m]
      congr 1
      refine List.map_congr_left fun d hd => ?_
      rw [if_neg (hNone d hd)]
      rfl
    · rename_i hKey
      have hOnce : Once m key := by
        rw [Once]
        omega
      rw [ih hOnce]

/-- A key is taken out before or after the value of another one changes. -/
theorem swapRemove_modify (h : Once m other) (f : β → β) :
    swapRemove (modify m other f) key = modify (swapRemove m key) other f := by
  rw [modify_eq_map h, modify_eq_map (h.swapRemove key), swapRemove_mapValues]
  intro e
  split <;> rfl

end OrderedMap

namespace Yaml

variable {key other : String} {f g : Yaml → Yaml} {v : Yaml}

/-- Whether a text key comes at most once in a mapping. -/
def Once (v : Yaml) (key : String) : Prop :=
  ∀ entries, v.asMap? = some entries → OrderedMap.Once entries (.str key)

theorem Once.updateMap {f : List (Yaml × Yaml) → List (Yaml × Yaml)} (h : v.Once key)
    (hKeep : ∀ entries, OrderedMap.Once entries (.str key) →
      OrderedMap.Once (f entries) (.str key)) :
    (v.updateMap f).Once key := by
  intro entries hEntries
  rw [asMap?_updateMap, Option.map_eq_some_iff] at hEntries
  obtain ⟨old, hOld, rfl⟩ := hEntries
  exact hKeep old (h old hOld)

theorem Once.updateKey (h : v.Once key) (other : String) (f : Yaml → Yaml) :
    (v.updateKey other f).Once key :=
  h.updateMap fun entries hOnce => by
    rwa [OrderedMap.Once, OrderedMap.countP_modify]

theorem Once.setKey (h : v.Once key) (hNe : key ≠ other) (value : Yaml) :
    (Yaml.setKey other value v).Once key :=
  h.updateMap fun entries hOnce => by
    rwa [OrderedMap.Once, OrderedMap.countP_insert (apart_str hNe) entries (str_beq_self other)]

theorem Once.setKey_self (h : v.Once key) (value : Yaml) : (Yaml.setKey key value v).Once key :=
  h.updateMap fun _ hOnce => hOnce.insert_self (str_beq_self key) value

theorem Once.removeKey (h : v.Once key) (other : String) : (v.removeKey other).Once key :=
  h.updateMap fun _ hOnce => hOnce.swapRemove (.str other)

/-- Changes of the entries of a mapping that come to the same on its own entries. -/
theorem updateMap_congr_at {f g : List (Yaml × Yaml) → List (Yaml × Yaml)} :
    (v : Yaml) → (∀ entries, v.asMap? = some entries → f entries = g entries) →
      updateMap f v = updateMap g v
  | .tagged tag v, h => by rw [updateMap, updateMap, updateMap_congr_at v h]
  | .map entries, h => by rw [updateMap, updateMap, h entries rfl]
  | .null, _ | .bool _, _ | .int _, _ | .float _, _ | .str _, _ | .seq _, _ => by simp [updateMap]

theorem updateKey_congr (h : ∀ u, v.get? key = some u → f u = g u) :
    updateKey key f v = updateKey key g v := by
  refine updateMap_congr_at v fun entries hEntries => ?_
  have hFound : ∀ u, OrderedMap.find? entries (.str key) = some u → f u = g u := by
    intro u hu
    refine h u ?_
    rw [get?, hEntries, Option.bind_some, hu]
  clear hEntries
  induction entries with
  | nil => rfl
  | cons e m ih =>
    obtain ⟨k, w⟩ := e
    rw [OrderedMap.find?_cons] at hFound
    rw [OrderedMap.modify, OrderedMap.modify]
    split
    · rename_i hKey
      rw [if_pos hKey] at hFound
      rw [hFound w rfl]
    · rename_i hKey
      rw [if_neg hKey] at hFound
      rw [ih hFound]

/-- A key is taken away before or after the value of another one changes, which comes once. -/
theorem removeKey_updateKey (h : v.Once other) (key : String) (f : Yaml → Yaml) :
    removeKey key (updateKey other f v) = updateKey other f (removeKey key v) := by
  rw [removeKey, updateKey, updateMap_updateMap, removeKey, updateKey, updateMap_updateMap]
  exact updateMap_congr_at v fun entries hEntries =>
    OrderedMap.swapRemove_modify (h entries hEntries) f

theorem get?_setKey_of_ne (h : key ≠ other) (value v : Yaml) :
    (setKey other value v).get? key = v.get? key := by
  rw [setKey, get?, get?, asMap?_updateMap]
  cases v.asMap? with
  | none => rfl
  | some entries =>
    exact OrderedMap.find?_insert_apart (apart_str h) entries (str_beq_self other) value

theorem get?_setKey_self {entries : List (Yaml × Yaml)} (h : v.asMap? = some entries)
    (value : Yaml) : (setKey key value v).get? key = some value := by
  rw [setKey, get?, asMap?_updateMap, h]
  exact OrderedMap.find?_insert_self entries (str_beq_self key) value

theorem get?_removeKey_of_ne (h : key ≠ other) (hOnce : v.Once key) :
    (removeKey other v).get? key = v.get? key := by
  rw [removeKey, get?, get?, asMap?_updateMap]
  cases hEntries : v.asMap? with
  | none => rfl
  | some entries =>
    exact OrderedMap.Once.find?_swapRemove (hOnce entries hEntries) (apart_str h.symm)

theorem once_of_entryKeysDiffer {entries : List (Yaml × Yaml)}
    (h : entryKeysDiffer entries = true) (key : String) :
    OrderedMap.Once entries (.str key) := by
  induction entries with
  | nil => exact Nat.zero_le 1
  | cons e entries ih =>
    obtain ⟨k, v⟩ := e
    simp only [entryKeysDiffer, Bool.and_eq_true, Bool.not_eq_true'] at h
    obtain ⟨⟨⟨hNew, -⟩, -⟩, hRest⟩ := h
    rw [OrderedMap.Once, List.countP_cons]
    split
    · rename_i hKey
      obtain rfl := (str_beq_iff key k).1 hKey
      rw [OrderedMap.contains, Option.isSome_eq_false_iff, Option.isNone_iff_eq_none] at hNew
      exact Nat.succ_le_succ (Nat.le_of_eq (OrderedMap.once_of_find?_eq_none hNew))
    · exact ih hRest

theorem once_of_keysDiffer : (v : Yaml) → v.keysDiffer = true → ∀ key, v.Once key
  | .tagged tag v, h, key => once_of_keysDiffer v (by simpa [keysDiffer] using h) key
  | .map entries, h, key => fun es hes => by
    obtain rfl : entries = es := Option.some.inj hes
    exact once_of_entryKeysDiffer (by simpa [keysDiffer] using h) key
  | .null, _, _ | .bool _, _, _ | .int _, _, _ | .float _, _, _ | .str _, _, _ | .seq _, _, _ =>
    fun es hes => by simp [asMap?, untagged] at hes

theorem keysDiffer_of_find? {entries : List (Yaml × Yaml)} {k v : Yaml}
    (h : entryKeysDiffer entries = true) (hFind : OrderedMap.find? entries k = some v) :
    v.keysDiffer = true := by
  induction entries with
  | nil => simp at hFind
  | cons e entries ih =>
    obtain ⟨j, u⟩ := e
    simp only [entryKeysDiffer, Bool.and_eq_true] at h
    rw [OrderedMap.find?_cons] at hFind
    split at hFind
    · rw [← Option.some.inj hFind]
      exact h.1.2
    · exact ih h.2 hFind

theorem keysDiffer_of_get? : (v : Yaml) → v.keysDiffer = true → ∀ {u}, v.get? key = some u →
    u.keysDiffer = true
  | .tagged tag v, h, u, hGet => keysDiffer_of_get? v (by simpa [keysDiffer] using h) hGet
  | .map entries, h, u, hGet =>
    keysDiffer_of_find? (k := .str key) (by simpa [keysDiffer] using h) hGet
  | .null, _, _, hGet | .bool _, _, _, hGet | .int _, _, _, hGet | .float _, _, _, hGet
  | .str _, _, _, hGet | .seq _, _, _, hGet => by simp [get?, asMap?, untagged] at hGet

end Yaml

namespace Revise

open Yaml (updateKey setKey removeKey)

variable {p : List Step} {d : Yaml}

/-! ### What a daemon set loses -/

/-- A deployment as a daemon set. -/
def demoted (d : Yaml) : Yaml :=
  updateKey "spec" (fun spec => removeKey "strategy" (removeKey "replicas" spec))
    (removeKey "status" (setKey "apiVersion" (.str "apps/v1") (setKey "kind" (.str "DaemonSet") d)))

theorem toDaemonSet_eq (d : Yaml) :
    toDaemonSet d = if kindOf d = some "Deployment" then demoted d else d := rfl

/-- Whether a path leads to something other than the kind and the version of an object and its
specification as a whole, which change when a deployment becomes a daemon set. -/
def isKept : List Step → Bool
  | .key key :: .key _ :: _ => key != "kind" && key != "apiVersion"
  | [.key key] => key != "kind" && key != "apiVersion" && key != "spec"
  | _ => false

theorem exists_of_isKept (h : isKept p = true) : ∃ key q, p = .key key :: q ∧ key ≠ "kind" ∧
    key ≠ "apiVersion" ∧ (key = "spec" → ∃ other r, q = .key other :: r) := by
  match p with
  | .key key :: .key other :: r =>
    simp only [isKept, Bool.and_eq_true, bne_iff_ne] at h
    exact ⟨key, .key other :: r, rfl, h.1, h.2, fun _ => ⟨other, r, rfl⟩⟩
  | [.key key] =>
    simp only [isKept, Bool.and_eq_true, bne_iff_ne] at h
    exact ⟨key, [], rfl, h.1.1, h.1.2, fun hSpec => absurd hSpec h.2⟩

/-- A document in which no text key comes twice, neither at the top nor in its specification. -/
structure TopKeysDiffer (d : Yaml) : Prop where
  top : ∀ key, d.Once key
  spec : ∀ u, d.get? "spec" = some u → ∀ key, u.Once key

theorem topKeysDiffer_of_keysDiffer (h : d.keysDiffer = true) : TopKeysDiffer d where
  top := Yaml.once_of_keysDiffer d h
  spec u hu := Yaml.once_of_keysDiffer u (Yaml.keysDiffer_of_get? d h hu)

theorem TopKeysDiffer.changeAt (h : TopKeysDiffer d) (hKept : isKept p = true) (f : Yaml → Yaml) :
    TopKeysDiffer (changeAt f p d) := by
  obtain ⟨key, q, rfl, -, -, hSpec⟩ := exists_of_isKept hKept
  refine ⟨fun other => (h.top other).updateKey key _, fun u hu other => ?_⟩
  rw [Revise.changeAt] at hu
  by_cases hKey : key = "spec"
  · obtain ⟨inner, r, rfl⟩ := hSpec hKey
    subst hKey
    rw [Yaml.get?_updateKey, Option.map_eq_some_iff] at hu
    obtain ⟨old, hOld, rfl⟩ := hu
    exact (h.spec old hOld other).updateKey inner _
  · rw [Yaml.get?_updateKey_of_ne (Ne.symm hKey)] at hu
    exact h.spec u hu other

theorem isKept_dashRules : ∀ rule ∈ dashRules, isKept rule.1 = true := by
  have hPaths : ∀ p ∈ dashRules.map (·.1), isKept p = true := by decide
  exact List.forall_mem_map.1 hPaths

theorem TopKeysDiffer.run (h : TopKeysDiffer d) {a : Pass} (hKept : isKept a.path = true) :
    TopKeysDiffer (a.run d) := by
  rw [Pass.run]
  split
  · exact h.changeAt hKept a.change
  · exact h

/-- What a daemon set keeps changes before or after the deployment becomes one. -/
theorem changeAt_demoted (hKept : isKept p = true) (h : TopKeysDiffer d) (f : Yaml → Yaml) :
    changeAt f p (demoted d) = demoted (changeAt f p d) := by
  obtain ⟨key, q, rfl, hKind, hVersion, hSpec⟩ := exists_of_isKept hKept
  have hOnce : ∀ other, other ≠ "kind" → other ≠ "apiVersion" →
      (setKey "apiVersion" (.str "apps/v1") (setKey "kind" (.str "DaemonSet") d)).Once other :=
    fun other hKind hVersion => ((h.top other).setKey hKind _).setKey hVersion _
  rw [changeAt, changeAt, demoted, demoted, Yaml.setKey_updateKey (Ne.symm hKind),
    Yaml.setKey_updateKey (Ne.symm hVersion), Yaml.removeKey_updateKey (hOnce key hKind hVersion)]
  by_cases hKey : key = "spec"
  · subst hKey
    obtain ⟨other, r, rfl⟩ := hSpec rfl
    rw [Yaml.updateKey_updateKey, Yaml.updateKey_updateKey]
    refine Yaml.updateKey_congr fun u hu => ?_
    rw [Yaml.get?_removeKey_of_ne (by decide) (hOnce "spec" hKind hVersion),
      Yaml.get?_setKey_of_ne hVersion, Yaml.get?_setKey_of_ne hKind] at hu
    have hInner := h.spec u hu other
    rw [Function.comp_apply, Function.comp_apply, changeAt, changeAt,
      Yaml.removeKey_updateKey hInner,
      Yaml.removeKey_updateKey (hInner.removeKey _)]
  · exact Yaml.updateKey_comm hKey _ _ _

end Revise

open Revise (Pass spacePass imagePass dashPass kindOf changeAt TopKeysDiffer demoted toDaemonSet)

namespace Manifest.Revision

variable {o : Revision} {d : Yaml}

/-- No pass changes what a deployment loses, and each of them is for deployments, too. -/
theorem kept_passes (o : Revision) :
    ∀ a ∈ o.passes, Revise.isKept a.path = true ∧ a.applies (some "Deployment") = true := by
  intro a ha
  rw [passes, List.mem_append, List.mem_append] at ha
  rcases ha with (ha | ha) | ha
  · obtain ⟨name, -, rfl⟩ := List.mem_map.1 ha
    have hNamespaced : (!isClusterKind "Deployment") = true := by decide
    exact ⟨rfl, hNamespaced⟩
  · obtain ⟨registry, -, rfl⟩ := List.mem_map.1 ha
    have hWorkload : Revise.workloadKinds.contains "Deployment" = true := by decide
    exact ⟨rfl, hWorkload⟩
  · obtain ⟨rule, hRule, rfl⟩ := List.mem_map.1 ha
    exact ⟨Revise.isKept_dashRules rule hRule, rfl⟩

theorem topKeysDiffer_revised (o : Revision) (h : TopKeysDiffer d) :
    TopKeysDiffer (o.revised d) := by
  rw [revised_eq_foldl]
  exact List.foldlRecOn o.passes _ h fun d hd a ha => hd.run (o.kept_passes a ha).1

/-- A daemon set that was made of a revised deployment stays as it is when it is revised again. -/
theorem revised_toDaemonSet_revised (o : Revision) (h : TopKeysDiffer d) :
    o.revised (toDaemonSet (o.revised d)) = toDaemonSet (o.revised d) := by
  have hKeys := o.topKeysDiffer_revised h
  rw [Revise.toDaemonSet_eq]
  split
  · rename_i hKind
    refine revised_eq_self fun a ha => ?_
    obtain ⟨hKept, hApplies⟩ := o.kept_passes a ha
    have hRun := o.run_revised d a ha
    rw [Pass.run, hKind, if_pos hApplies] at hRun
    rw [Pass.run]
    split
    · rw [Revise.changeAt_demoted hKept hKeys, hRun]
    · rfl
  · exact o.revised_revised d

end Manifest.Revision

/-! ### Documents that were read -/

theorem Yaml.keysDiffer_of_document {node : Node} {d : Yaml} (h : node.document = .ok d) :
    d.keysDiffer = true := by
  rw [Node.document] at h
  cases hValue : node.toYaml with
  | error e => simp [hValue, bind, Except.bind] at h
  | ok v =>
    simp only [hValue, bind, Except.bind] at h
    split at h
    · rename_i hDiffer
      obtain rfl : v = d := by simpa [pure, Except.pure] using h
      exact hDiffer
    · simp [throw, throwThe, MonadExceptOf.throw] at h

theorem Yaml.keysDiffer_of_mem_parseAll {text : String} {docs : List Yaml}
    (h : Yaml.parseAll text = .ok docs) : ∀ d ∈ docs, d.keysDiffer = true := by
  have hAll : ∀ nodes : List Node, ∀ docs, nodes.mapM Node.document = .ok docs →
      ∀ d ∈ docs, d.keysDiffer = true := by
    intro nodes
    induction nodes with
    | nil =>
      intro docs hDocs
      obtain rfl : [] = docs := by simpa [pure, Except.pure] using hDocs
      exact List.forall_mem_nil _
    | cons node nodes ih =>
      intro docs hDocs
      rw [List.mapM_cons] at hDocs
      cases hNode : node.document with
      | error e => simp [hNode, bind, Except.bind] at hDocs
      | ok d =>
        cases hRest : nodes.mapM Node.document with
        | error e => simp [hNode, hRest, bind, Except.bind] at hDocs
        | ok rest =>
          obtain rfl : d :: rest = docs := by
            simpa [hNode, hRest, bind, Except.bind, pure, Except.pure] using hDocs
          exact List.forall_mem_cons.2 ⟨keysDiffer_of_document hNode, ih rest hRest⟩
  rw [parseAll] at h
  cases hNodes : Node.allOfText text with
  | error e => simp [hNodes, bind, Except.bind] at h
  | ok nodes =>
    simp only [hNodes, bind, Except.bind] at h
    exact hAll nodes docs h

/-- In a document that was read no key comes twice. -/
theorem Manifest.topKeysDiffer_of_parseDocuments {text : String} {docs : List Yaml}
    (h : Manifest.parseDocuments text = .ok docs) : ∀ d ∈ docs, TopKeysDiffer d := by
  intro d hd
  rw [parseDocuments] at h
  cases hParse : Yaml.parseAll text with
  | error e => simp [hParse, Except.map] at h
  | ok all =>
    simp only [hParse, Except.map, Except.ok.injEq] at h
    rw [← h] at hd
    exact Revise.topKeysDiffer_of_keysDiffer
      (Yaml.keysDiffer_of_mem_parseAll hParse d (List.mem_filter.1 hd).1)

end KubeCompose
