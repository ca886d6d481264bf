import KubeCompose.Proofs.Change
import KubeCompose.Proofs.ReadBack
import KubeCompose.Proofs.Sameness

/-!
# Selectors and labels

A selector finds the pods of a workload when each of its entries is one of the labels in the
template of pods. Underscores give way in the keys of these labels and of the workload's own
selector, but not in the selector of a service. So as long as no two labels become one, a workload
keeps finding its own pods, and a service keeps finding them exactly when its selector has no
underscore to lose.
-/

namespace KubeCompose.Revise

open OrderedMap (find? find?_cons)

/-- Where the labels in the template of pods stand. -/
def labelsPath : List String := ["spec", "template", "metadata", "labels"]

/-- Where the selector of a workload stands. -/
def ownSelectorPath : List String := ["spec", "selector", "matchLabels"]

/-- Where the selector of a service stands. -/
def selectorPath : List String := ["spec", "selector"]

/-- Whether each entry of a selector is one of the labels. -/
def selects (selector labels : List (Yaml × Yaml)) : Bool :=
  selector.all fun e => (find? labels e.1).any fun v => e.2 == v

theorem selects_iff {selector labels : List (Yaml × Yaml)} :
    selects selector labels = true ↔
      ∀ e ∈ selector, ∃ v, find? labels e.1 = some v ∧ (e.2 == v) = true := by
  simp [selects, Option.any_eq_true]

/-! ### Keys with dashes -/

/-- A key with dashes for its underscores, when it is a text. -/
def dashedKey : Yaml → Yaml
  | .str s => .str (dashed s)
  | k => k

/-- The entries of a mapping with dashes in their keys, none of them merged. -/
def dashedEntries (entries : List (Yaml × Yaml)) : List (Yaml × Yaml) :=
  entries.map fun e => (dashedKey e.1, e.2)

/-- Whether the keys of entries differ, each from those before it. -/
def KeysApart (entries : List (Yaml × Yaml)) : Prop :=
  entries.Pairwise fun d e => (e.1 == d.1) = false

instance (entries : List (Yaml × Yaml)) : Decidable (KeysApart entries) :=
  inferInstanceAs (Decidable (List.Pairwise _ _))

theorem dashKeys_map (entries : List (Yaml × Yaml)) :
    dashKeys (.map entries) = .map (OrderedMap.ofList (dashedEntries entries)) := by
  rw [dashKeys, dashedEntries]
  congr 2
  refine List.map_congr_left fun e _ => ?_
  obtain ⟨k, v⟩ := e
  cases k <;> rfl

theorem insert_of_apart {m : List (Yaml × Yaml)} {key : Yaml}
    (h : ∀ d ∈ m, (key == d.1) = false) (value : Yaml) :
    OrderedMap.insert m key value = m ++ [(key, value)] := by
  induction m with
  | nil => rfl
  | cons d m ih =>
    obtain ⟨hHead, hRest⟩ := List.forall_mem_cons.1 h
    rw [OrderedMap.insert, hHead, if_neg Bool.false_ne_true, ih hRest, List.cons_append]

/-- Entries whose keys differ are a map as they are. -/
theorem ofList_of_keysApart {entries : List (Yaml × Yaml)} (h : KeysApart entries) :
    OrderedMap.ofList entries = entries := by
  suffices hFrom : ∀ m : List (Yaml × Yaml), KeysApart (m ++ entries) →
      entries.foldl (fun m e => OrderedMap.insert m e.1 e.2) m = m ++ entries from hFrom [] h
  clear h
  induction entries with
  | nil => simp
  | cons e entries ih =>
    intro m hApart
    have hNew : ∀ d ∈ m, (e.1 == d.1) = false := fun d hd =>
      (List.pairwise_append.1 hApart).2.2 d hd e (List.mem_cons_self ..)
    rw [List.foldl_cons, insert_of_apart hNew]
    have hNext := ih (m ++ [e])
    rw [List.append_assoc, List.singleton_append] at hNext
    exact hNext hApart

/-- A text with dashes for its underscores holds none. -/
theorem underscore_notMem_dashed (s : String) : '_' ∉ (dashed s).toList := by
  rw [dashed, String.toList_map]
  intro hMem
  obtain ⟨c, -, hc⟩ := List.mem_map.1 hMem
  split at hc
  · exact absurd hc (by decide)
  · rename_i hNe
    exact hNe hc

/-- What is found under a text is an entry with that text. -/
theorem mem_of_find?_str {m : List (Yaml × Yaml)} {s : String} {v : Yaml}
    (h : find? m (.str s) = some v) : (.str s, v) ∈ m := by
  obtain ⟨k, hKey, hMem⟩ := OrderedMap.exists_mem_of_find? h
  rwa [(Yaml.str_beq_iff s k).1 hKey] at hMem

/-- Where the keys differ, an entry with a text is found under it. -/
theorem find?_str_of_mem {m : List (Yaml × Yaml)} {s : String} {v : Yaml} (hApart : KeysApart m)
    (h : (.str s, v) ∈ m) : find? m (.str s) = some v :=
  OrderedMap.find?_of_mem_of_pairwise (List.pairwise_map.2 hApart) h

/-! ### What is found among labels with dashes -/

theorem dashedKey_of_ne_str {k : Yaml} (h : ∀ s, k ≠ .str s) : dashedKey k = k := by
  cases k with
  | str s => exact absurd rfl (h s)
  | _ => rfl

theorem beq_str_of_ne_str {k : Yaml} (h : ∀ s, k ≠ .str s) (s : String) :
    (k == Yaml.str s) = false := by
  change Yaml.same k (.str s) = false
  cases k with
  | str t => exact absurd rfl (h t)
  | _ => simp [Yaml.same]

/-- A key that is no text is looked up as before. -/
theorem find?_dashedEntries_of_ne_str {k : Yaml} (h : ∀ s, k ≠ .str s)
    (labels : List (Yaml × Yaml)) : find? (dashedEntries labels) k = find? labels k := by
  induction labels with
  | nil => rfl
  | cons e labels ih =>
    obtain ⟨key, v⟩ := e
    have hKey : (k == dashedKey key) = (k == key) := by
      cases key with
      | str s => rw [dashedKey, beq_str_of_ne_str h, beq_str_of_ne_str h]
      | _ => rfl
    rw [dashedEntries, List.map_cons, find?_cons, find?_cons, hKey, ← ih]
    rfl

/-- As long as no two labels become one, each label keeps its value. -/
theorem find?_dashedEntries {labels : List (Yaml × Yaml)} {k v : Yaml}
    (hApart : KeysApart (dashedEntries labels)) (h : find? labels k = some v) :
    find? (dashedEntries labels) (dashedKey k) = some v := by
  by_cases hText : ∃ s, k = .str s
  · obtain ⟨s, rfl⟩ := hText
    refine find?_str_of_mem hApart ?_
    exact List.mem_map.2 ⟨(.str s, v), mem_of_find?_str h, rfl⟩
  · have hNe : ∀ s, k ≠ .str s := fun s hEq => hText ⟨s, hEq⟩
    rw [dashedKey_of_ne_str hNe, find?_dashedEntries_of_ne_str hNe, h]

/-- Two labels that differ stay apart in the keys of the labels with dashes. -/
theorem ne_dashed_of_mem {labels : List (Yaml × Yaml)} {s t : String} {u v : Yaml}
    (hApart : KeysApart (dashedEntries labels)) (hs : (.str s, u) ∈ labels)
    (ht : (.str t, v) ∈ labels) (hNe : s ≠ t) : dashed s ≠ dashed t := by
  induction labels with
  | nil => simp at hs
  | cons e labels ih =>
    obtain ⟨hHead, hRest⟩ := List.pairwise_cons.1 hApart
    have hLater : ∀ {r : String} {x : Yaml}, (.str r, x) ∈ labels →
        (Yaml.str (dashed r) == dashedKey e.1) = false :=
      fun hr => hHead _ (List.mem_map.2 ⟨_, hr, rfl⟩)
    intro hEq
    rcases List.mem_cons.1 hs with rfl | hsMem
    · rcases List.mem_cons.1 ht with hSame | htMem
      · exact hNe (Yaml.str.inj (Prod.mk.inj hSame).1).symm
      · have hFalse := hLater htMem
        rw [dashedKey, hEq, Yaml.str_beq_self] at hFalse
        exact Bool.false_ne_true hFalse.symm
    · rcases List.mem_cons.1 ht with rfl | htMem
      · have hFalse := hLater hsMem
        rw [dashedKey, hEq, Yaml.str_beq_self] at hFalse
        exact Bool.false_ne_true hFalse.symm
      · exact ih hRest hsMem htMem hEq

/-- The keys of a selector that finds labels stay apart when those of the labels do. -/
theorem keysApart_dashedEntries {own labels : List (Yaml × Yaml)}
    (hLabels : KeysApart (dashedEntries labels)) (hOwn : KeysApart own)
    (hSelects : selects own labels = true) : KeysApart (dashedEntries own) := by
  rw [selects_iff] at hSelects
  rw [KeysApart, dashedEntries, List.pairwise_map]
  refine List.Pairwise.imp_of_mem (fun {d e} hd he hNe => ?_) hOwn
  by_cases hText : ∃ s, e.1 = .str s
  · obtain ⟨s, hs⟩ := hText
    rw [Bool.eq_false_iff]
    intro hEq
    rw [hs, dashedKey, Yaml.str_beq_iff] at hEq
    obtain ⟨t, ht⟩ : ∃ t, d.1 = .str t := by
      cases hd1 : d.1 with
      | str t => exact ⟨t, rfl⟩
      | _ => simp [hd1, dashedKey] at hEq
    obtain ⟨u, hu, -⟩ := hSelects e he
    obtain ⟨v, hv, -⟩ := hSelects d hd
    rw [hs] at hu hNe
    rw [ht] at hv hNe
    have hDiffer : s ≠ t := by
      rintro rfl
      rw [Yaml.str_beq_self] at hNe
      exact Bool.false_ne_true hNe.symm
    rw [ht, dashedKey] at hEq
    exact ne_dashed_of_mem hLabels (mem_of_find?_str hu) (mem_of_find?_str hv) hDiffer
      (Yaml.str.inj hEq).symm
  · have hNeStr : ∀ s, e.1 ≠ .str s := fun s hEq => hText ⟨s, hEq⟩
    rw [dashedKey_of_ne_str hNeStr]
    cases hKey : d.1 with
    | str t => exact beq_str_of_ne_str hNeStr (dashed t)
    | _ =>
      rw [hKey] at hNe
      exact hNe

/-! ### What underscores leave of labels and selectors -/

theorem at?_dashNames_labels (document : Yaml) :
    (dashNames document).at? labelsPath = (document.at? labelsPath).map dashKeys :=
  at?_foldl labelsPath [] dashKeys (dashRules.take 2) (dashRules.drop 3) (by decide) (by decide)
    document

theorem at?_dashNames_ownSelector (document : Yaml) :
    (dashNames document).at? ownSelectorPath = (document.at? ownSelectorPath).map dashKeys :=
  at?_foldl ownSelectorPath [] dashKeys (dashRules.take 1) (dashRules.drop 2) (by decide)
    (by decide) document

theorem at?_dashNames_selector (document : Yaml) :
    (dashNames document).at? selectorPath =
      (document.at? selectorPath).map (changeAt dashKeys [.key "matchLabels"]) :=
  at?_foldl selectorPath [.key "matchLabels"] dashKeys (dashRules.take 1) (dashRules.drop 2)
    (by decide) (by decide) document

/-- A selector without mappings for values stays as it is in a service. -/
theorem entriesAt_dashNames_selector {service : Yaml}
    (h : ∀ e ∈ service.entriesAt selectorPath, ∀ entries, e.2 ≠ .map entries) :
    (dashNames service).entriesAt selectorPath = service.entriesAt selectorPath := by
  rw [Yaml.entriesAt, Yaml.entriesAt, at?_dashNames_selector]
  rw [Yaml.entriesAt] at h
  cases hAt : service.at? selectorPath with
  | none => rfl
  | some selector =>
    rw [hAt, Option.bind_some] at h
    have hSelf : changeAt dashKeys [.key "matchLabels"] selector = selector := by
      refine Yaml.updateKey_eq_self fun u hu => ?_
      rw [Yaml.get?] at hu
      cases hMap : selector.asMap? with
      | none => simp [hMap] at hu
      | some entries =>
        rw [hMap, Option.bind_some] at hu
        rw [hMap, Option.getD_some] at h
        have hValue := h _ (mem_of_find?_str hu)
        cases u with
        | map es => exact absurd rfl (hValue es)
        | _ => rfl
    rw [Option.map_some, hSelf]

section Workload

variable {workload : Yaml} {labels : List (Yaml × Yaml)}
  (hLabels : workload.at? labelsPath = some (.map labels))
  (hApart : KeysApart (dashedEntries labels))
include hLabels hApart

theorem entriesAt_dashNames_labels :
    (dashNames workload).entriesAt labelsPath = dashedEntries labels := by
  rw [Yaml.entriesAt, at?_dashNames_labels, hLabels, Option.map_some, dashKeys_map,
    ofList_of_keysApart hApart]
  rfl

/-- A workload keeps finding its own pods. -/
theorem selects_own {own : List (Yaml × Yaml)}
    (hOwn : workload.at? ownSelectorPath = some (.map own)) (hKeys : KeysApart own)
    (hSelects : selects own labels = true) :
    selects ((dashNames workload).entriesAt ownSelectorPath)
      ((dashNames workload).entriesAt labelsPath) = true := by
  have hOwnEntries : (dashNames workload).entriesAt ownSelectorPath = dashedEntries own := by
    rw [Yaml.entriesAt, at?_dashNames_ownSelector, hOwn, Option.map_some, dashKeys_map,
      ofList_of_keysApart (keysApart_dashedEntries hApart hKeys hSelects)]
    rfl
  rw [entriesAt_dashNames_labels hLabels hApart, hOwnEntries, selects_iff]
  rw [selects_iff] at hSelects
  intro e he
  obtain ⟨d, hd, rfl⟩ := List.mem_map.1 he
  obtain ⟨v, hFind, hSame⟩ := hSelects d hd
  exact ⟨v, find?_dashedEntries hApart hFind, hSame⟩

/-- A service keeps finding the pods of a workload exactly when its selector holds no
underscores. -/
theorem selects_service_iff {service : Yaml}
    (hTexts : ∀ e ∈ service.entriesAt selectorPath, ∀ entries, e.2 ≠ .map entries)
    (hSelects : selects (service.entriesAt selectorPath) labels = true) :
    selects ((dashNames service).entriesAt selectorPath)
        ((dashNames workload).entriesAt labelsPath) = true ↔
      ∀ s v, (.str s, v) ∈ service.entriesAt selectorPath → '_' ∉ s.toList := by
  rw [entriesAt_dashNames_labels hLabels hApart, entriesAt_dashNames_selector hTexts, selects_iff]
  rw [selects_iff] at hSelects
  constructor
  · intro hAfter s u hMem hDash
    obtain ⟨v, hFind, -⟩ := hAfter _ hMem
    obtain ⟨d, -, hEq⟩ := List.mem_map.1 (mem_of_find?_str hFind)
    cases hKey : d.1 with
    | str t =>
      rw [hKey, dashedKey] at hEq
      have hText : dashed t = s := Yaml.str.inj (Prod.mk.inj hEq).1
      exact underscore_notMem_dashed t (hText ▸ hDash)
    | _ => simp [hKey, dashedKey] at hEq
  · intro hNone e he
    obtain ⟨v, hFind, hSame⟩ := hSelects e he
    refine ⟨v, ?_, hSame⟩
    have hKey : dashedKey e.1 = e.1 := by
      cases hText : e.1 with
      | str s =>
        have hMem : (Yaml.str s, e.2) ∈ service.entriesAt selectorPath := by
          rw [← hText]
          exact he
        rw [dashedKey, dashed_eq_self (hNone s e.2 hMem)]
      | _ => rfl
    rw [← hKey]
    exact find?_dashedEntries hApart hFind

end Workload

/-! ### Selectors and labels with underscores -/

/-- A deployment with a selector of its own and labels for its pods. -/
def deploymentWith (own labels : List (String × Yaml)) : Yaml :=
  .fields
    [("kind", .str "Deployment"),
     ("spec",
      .fields
        [("selector", .fields [("matchLabels", .fields own)]),
         ("template", .fields [("metadata", .fields [("labels", .fields labels)])])])]

/-- A service with a selector. -/
def serviceWith (selector : List (String × Yaml)) : Yaml :=
  .fields [("kind", .str "Service"), ("spec", .fields [("selector", .fields selector)])]

/-- When underscores give way in all documents, and no two labels of a workload become one, the
workload keeps finding its own pods, and a service that found them keeps finding them exactly when
its selector holds no underscores. -/
theorem selectors_dashNames {workload : Yaml} {labels : List (Yaml × Yaml)}
    (hLabels : workload.at? labelsPath = some (.map labels))
    (hApart : KeysApart (dashedEntries labels)) :
    (∀ own, workload.at? ownSelectorPath = some (.map own) → KeysApart own →
      selects own labels = true →
        selects ((dashNames workload).entriesAt ownSelectorPath)
          ((dashNames workload).entriesAt labelsPath) = true) ∧
    ∀ service : Yaml,
      (∀ e ∈ service.entriesAt selectorPath, ∀ entries, e.2 ≠ .map entries) →
      selects (service.entriesAt selectorPath) labels = true →
        (selects ((dashNames service).entriesAt selectorPath)
            ((dashNames workload).entriesAt labelsPath) = true ↔
          ∀ s v, (.str s, v) ∈ service.entriesAt selectorPath → '_' ∉ s.toList) :=
  ⟨fun _ hOwn hKeys hSelects => selects_own hLabels hApart hOwn hKeys hSelects,
    fun _ hTexts hSelects => selects_service_iff hLabels hApart hTexts hSelects⟩

-- where two labels become one, a deployment loses its own pods
example :
    let merging := deploymentWith [("a_b", .str "web")] [("a_b", .str "web"), ("a-b", .str "api")]
    selects (merging.entriesAt ownSelectorPath) (merging.entriesAt labelsPath) = true ∧
      selects ((dashNames merging).entriesAt ownSelectorPath)
        ((dashNames merging).entriesAt labelsPath) = false := by
  decide +kernel

/-- A deployment with one label that holds an underscore and one that holds none. -/
def labelledDeployment : Yaml :=
  deploymentWith [("app_name", .str "web")] [("app_name", .str "web"), ("tier", .str "front")]

/-- The deployment keeps finding its pods, and a service that selects by the label without
underscores keeps finding them, too. -/
theorem selectors_dashNames_labelledDeployment :
    selects ((dashNames labelledDeployment).entriesAt ownSelectorPath)
        ((dashNames labelledDeployment).entriesAt labelsPath) = true ∧
      selects ((dashNames (serviceWith [("tier", .str "front")])).entriesAt selectorPath)
        ((dashNames labelledDeployment).entriesAt labelsPath) = true := by
  have hLabels : labelledDeployment.at? labelsPath =
      some (.map [(.str "app_name", .str "web"), (.str "tier", .str "front")]) := by
    decide +kernel
  have hEntries : (serviceWith [("tier", .str "front")]).entriesAt selectorPath =
      [(.str "tier", .str "front")] := by decide +kernel
  have hLaws := selectors_dashNames hLabels (by decide +kernel)
  refine ⟨hLaws.1 [(.str "app_name", .str "web")] ?_ ?_ ?_, (hLaws.2 _ ?_ ?_).2 ?_⟩
  · decide +kernel
  · decide +kernel
  · decide +kernel
  · rw [hEntries]
    simp
  · decide +kernel
  · intro s v hMem
    rw [hEntries] at hMem
    obtain ⟨rfl, -⟩ : s = "tier" ∧ v = .str "front" := by simpa using hMem
    decide

/-- A service that selects by a label with an underscore finds the pods before, and not after. -/
theorem not_selects_dashNames_service :
    selects ((serviceWith [("app_name", .str "web")]).entriesAt selectorPath)
        (labelledDeployment.entriesAt labelsPath) = true ∧
      selects ((dashNames (serviceWith [("app_name", .str "web")])).entriesAt selectorPath)
        ((dashNames labelledDeployment).entriesAt labelsPath) = false := by
  decide +kernel

end KubeCompose.Revise
