import KubeCompose.Manifest.Revise
import KubeCompose.Proofs.Image
import KubeCompose.Proofs.Yaml

/-!
# Laws of revising documents

A change at a key or at a path is known from what is found there: a document in which all parts that
a revision would change are as the revision would leave them stays as it is.
-/

namespace KubeCompose

/-! ### Documents -/

namespace Yaml

theorem updateMap_eq_self {f : List (Yaml × Yaml) → List (Yaml × Yaml)} :
    (v : Yaml) → (∀ entries, v.asMap? = some entries → f entries = entries) → updateMap f v = v
  | .tagged tag v, h => by rw [updateMap, updateMap_eq_self v h]
  | .map entries, h => by rw [updateMap, h entries rfl]
  | .null, _ | .bool _, _ | .int _, _ | .float _, _ | .str _, _ | .seq _, _ => by simp [updateMap]

theorem updateSeq_eq_self {f : Yaml → Yaml} :
    (v : Yaml) → (∀ items, v.asSeq? = some items → ∀ u ∈ items, f u = u) → updateSeq f v = v
  | .tagged tag v, h => by rw [updateSeq, updateSeq_eq_self v h]
  | .seq items, h => by
    rw [updateSeq, List.map_congr_left (h items rfl), List.map_id']
  | .null, _ | .bool _, _ | .int _, _ | .float _, _ | .str _, _ | .map _, _ => by simp [updateSeq]

/-- A key whose value stays as it is can be changed. -/
theorem updateKey_eq_self {key : String} {f : Yaml → Yaml} {v : Yaml}
    (h : ∀ u, v.get? key = some u → f u = u) : updateKey key f v = v := by
  refine updateMap_eq_self v fun entries hEntries => OrderedMap.modify_eq_self fun u hu => h u ?_
  rw [get?, hEntries, Option.bind_some, hu]

/-- A key that has the value can be set to it. -/
theorem setKey_eq_self {key : String} {value v : Yaml} (h : v.get? key = some value) :
    setKey key value v = v := by
  refine updateMap_eq_self v fun entries hEntries => OrderedMap.insert_eq_self ?_
  rwa [get?, hEntries, Option.bind_some] at h

theorem updateKey_fields (entries : List (String × Yaml)) (key : String) (f : Yaml → Yaml) :
    updateKey key f (fields entries) = fields (OrderedMap.modify entries key f) :=
  congrArg Yaml.map (OrderedMap.modify_map Yaml.str same_str entries key f)

theorem setKey_fields (entries : List (String × Yaml)) (key : String) (value : Yaml) :
    setKey key value (fields entries) = fields (OrderedMap.insert entries key value) :=
  congrArg Yaml.map (OrderedMap.insert_map Yaml.str same_str entries key value)

theorem removeKey_fields (entries : List (String × Yaml)) (key : String) :
    removeKey key (fields entries) = fields (OrderedMap.swapRemove entries key) :=
  congrArg Yaml.map (OrderedMap.swapRemove_map Yaml.str same_str entries key)

end Yaml

namespace Revise

open Yaml (fields updateKey updateSeq setKey removeKey)

/-! ### Namespace -/

/-- An object that stands in the namespace stays as it is. -/
theorem setNamespace_eq_self {name : String} {document : Yaml}
    (h : document.at? ["metadata", "namespace"] = some (.str name)) :
    setNamespace name document = document := by
  rw [setNamespace]
  split
  · rfl
  · refine Yaml.updateKey_eq_self fun metadata hMetadata => Yaml.setKey_eq_self ?_
    simpa [hMetadata] using h

/-! ### Images -/

/-- An image that the registry leaves as it is stays. -/
theorem moveImage_eq_self {registry : String} {image : Yaml}
    (h : ∀ current, image.asText? = some current → Image.inRegistry current registry = current) :
    moveImage registry image = image := by
  rw [moveImage]
  split
  · rfl
  · rename_i current hText
    rw [if_pos (h current hText)]

theorem movedCount_eq_zero {registry : String} {document : Yaml}
    (h : ∀ image ∈ images document, Image.inRegistry image registry = image) :
    movedCount registry document = 0 := by
  rw [movedCount, List.length_eq_zero_iff, List.filter_eq_nil_iff]
  intro image hImage
  simp [h image hImage]

/-- A document whose images the registry leaves as they are stays as it is. -/
theorem moveImages_eq_self {registry : String} {document : Yaml}
    (h : ∀ image ∈ images document, Image.inRegistry image registry = image) :
    moveImages registry document = document := by
  rw [moveImages]
  split
  · rename_i hWorkload
    refine Yaml.updateKey_eq_self fun spec hSpec => Yaml.updateKey_eq_self fun template hTemplate =>
      Yaml.updateKey_eq_self fun pod hPod => ?_
    have hAt : document.at? ["spec", "template", "spec"] = some pod := by
      simp [hSpec, hTemplate, hPod]
    have hList : ∀ list ∈ containerLists,
        updateKey list (updateSeq (updateKey "image" (moveImage registry))) pod = pod := by
      intro list hMem
      refine Yaml.updateKey_eq_self fun u hu => Yaml.updateSeq_eq_self u fun items hItems c hc =>
        Yaml.updateKey_eq_self fun image hImage => moveImage_eq_self fun current hCurrent => ?_
      apply h
      rw [images, if_pos hWorkload, hAt]
      refine List.mem_flatMap.2 ⟨list, hMem, List.mem_filterMap.2 ⟨c, ?_, ?_⟩⟩
      · simpa [hu, hItems] using hc
      · simp [hImage, hCurrent]
    rw [containerLists, List.forall_mem_cons, List.forall_mem_singleton] at hList
    simp only [containerLists, List.foldl_cons, List.foldl_nil, hList.1, hList.2]
  · rfl

/-! ### Underscores -/

/-- The characters of a text with dashes. -/
theorem dashed_eq_ofList (s : String) :
    dashed s = String.ofList (s.toList.map fun c => if c = '_' then '-' else c) := by
  rw [← String.toList_inj, dashed, String.toList_map, String.toList_ofList]

theorem dashed_append (a b : String) : dashed (a ++ b) = dashed a ++ dashed b := by
  rw [dashed_eq_ofList, dashed_eq_ofList, dashed_eq_ofList, String.toList_append, List.map_append,
    String.ofList_append]

/-- A text without underscores stays as it is. -/
theorem dashed_eq_self {s : String} (h : '_' ∉ s.toList) : dashed s = s := by
  rw [← String.toList_inj, dashed, String.toList_map]
  conv_rhs => rw [← List.map_id s.toList]
  refine List.map_congr_left fun c hc => ?_
  have hNe : c ≠ '_' := fun hEq => h (hEq ▸ hc)
  rw [if_neg hNe]
  rfl

/-- The parts of a document at a path. -/
def reached : List Step → Yaml → List Yaml
  | [], v => [v]
  | .key name :: path, v => (v.get? name).toList.flatMap (reached path)
  | .each :: path, .seq items => items.flatMap (reached path)
  | .each :: _, _ => []

theorem changeAt_key_fields (f : Yaml → Yaml) (key : String) (path : List Step)
    (entries : List (String × Yaml)) :
    changeAt f (.key key :: path) (fields entries) =
      fields (OrderedMap.modify entries key (changeAt f path)) :=
  Yaml.updateKey_fields entries key (changeAt f path)

theorem changeAt_each_seq (f : Yaml → Yaml) (path : List Step) (items : List Yaml) :
    changeAt f (.each :: path) (.seq items) = .seq (items.map (changeAt f path)) := by
  rw [changeAt]

/-- A change that leaves each part at the path as it is changes nothing. -/
theorem changeAt_eq_self {f : Yaml → Yaml} {path : List Step} {v : Yaml}
    (h : ∀ u ∈ reached path v, f u = u) : changeAt f path v = v := by
  induction path generalizing v with
  | nil => exact h v (by simp [reached])
  | cons step path ih =>
    cases step with
    | key name =>
      rw [changeAt]
      refine Yaml.updateKey_eq_self fun u hu => ih fun part hPart => h part ?_
      simp [reached, hu, hPart]
    | each =>
      cases v with
      | seq items =>
        rw [changeAt, List.map_congr_left (g := id), List.map_id]
        intro u hu
        refine ih fun part hPart => h part ?_
        rw [reached]
        exact List.mem_flatMap.2 ⟨u, hu, hPart⟩
      | _ => rfl

/-- Rules that leave the parts at their paths as they are change nothing. -/
theorem foldl_changeAt_eq_self {rules : List (List Step × (Yaml → Yaml))} {document : Yaml}
    (h : ∀ rule ∈ rules, ∀ u ∈ reached rule.1 document, rule.2 u = u) :
    rules.foldl (fun d (path, f) => changeAt f path d) document = document := by
  induction rules with
  | nil => rfl
  | cons rule rules ih =>
    obtain ⟨path, f⟩ := rule
    obtain ⟨hRule, hRules⟩ := List.forall_mem_cons.1 h
    rw [List.foldl_cons]
    change rules.foldl _ (changeAt f path document) = document
    rw [changeAt_eq_self hRule, ih hRules]

end Revise

end KubeCompose
