import KubeCompose.Manifest.Directory
import KubeCompose.Proofs.Selectors

/-!
# Documents that are revised again

A revision of a document is a row of passes, each a change at a path of the objects of some kinds. A
pass that is made again changes nothing, and two of them can be made in either order, so that after
all of them none has anything left to change. This stays so when a deployment becomes a daemon set,
as long as no key of the deployment comes twice.
-/

namespace KubeCompose

/-! ### Passes in any order -/

/-- What can be done before or after each of some passes can be done before or after all, wherever
they lead from where they start. -/
theorem foldl_comm {α : Type} {f : α → α} {passes : List (α → α)} {P : α → Prop}
    (hKeep : ∀ g ∈ passes, ∀ a, P a → P (g a)) (hSwap : ∀ g ∈ passes, ∀ a, P a → f (g a) = g (f a))
    {a : α} (h : P a) :
    f (passes.foldl (fun a g => g a) a) = passes.foldl (fun a g => g a) (f a) := by
  induction passes generalizing a with
  | nil => rfl
  | cons g passes ih =>
    obtain ⟨hKeepHead, hKeepRest⟩ := List.forall_mem_cons.1 hKeep
    obtain ⟨hSwapHead, hSwapRest⟩ := List.forall_mem_cons.1 hSwap
    rw [List.foldl_cons, List.foldl_cons, ih hKeepRest hSwapRest (hKeepHead a h), hSwapHead a h]

/-- Passes that repeat nothing and can be made in any order leave nothing for any of them. -/
theorem foldl_fixed {α : Type} {passes : List (α → α)}
    (hIdem : ∀ f ∈ passes, ∀ a, f (f a) = f a)
    (hComm : passes.Pairwise fun f g => ∀ a, f (g a) = g (f a)) :
    ∀ f ∈ passes, ∀ a, f (passes.foldl (fun a f => f a) a) = passes.foldl (fun a f => f a) a := by
  induction passes with
  | nil => simp
  | cons g passes ih =>
    obtain ⟨hHead, hRest⟩ := List.forall_mem_cons.1 hIdem
    obtain ⟨hSwap, hOthers⟩ := List.pairwise_cons.1 hComm
    intro f hf a
    rw [List.foldl_cons]
    rcases List.mem_cons.1 hf with rfl | hf
    · -- the first pass can be made last, where it repeats itself
      rw [foldl_comm (P := fun _ => True) (fun _ _ _ _ => trivial) (fun g hg b _ => hSwap g hg b)
        trivial, hHead]
    · exact ih hRest hOthers f hf (g a)

/-- What no pass changes, no row of them changes. -/
theorem foldl_eq_self {α : Type} {passes : List (α → α)} {a : α} (h : ∀ f ∈ passes, f a = a) :
    passes.foldl (fun a f => f a) a = a := by
  induction passes with
  | nil => rfl
  | cons f passes ih =>
    obtain ⟨hHead, hRest⟩ := List.forall_mem_cons.1 h
    rw [List.foldl_cons, hHead, ih hRest]

namespace Revise

open Yaml (updateKey updateSeq setKey removeKey)
open OrderedMap (find?_cons)

variable {p q : List Step} {f g : Yaml → Yaml}

/-! ### Changes below a path -/

/-- A change at a path and one below it can be made in either order when that is so at the path. -/
theorem changeAt_comm_below (h : ∀ u, f (changeAt g q u) = changeAt g q (f u)) (p : List Step)
    (v : Yaml) : changeAt f p (changeAt g (p ++ q) v) = changeAt g (p ++ q) (changeAt f p v) := by
  induction p generalizing v with
  | nil => exact h v
  | cons step p ih =>
    cases step with
    | key key =>
      rw [List.cons_append, changeAt, changeAt, changeAt, changeAt, Yaml.updateKey_updateKey,
        Yaml.updateKey_updateKey]
      congr 1
      funext u
      exact ih u
    | each =>
      rw [List.cons_append]
      cases v with
      | seq items =>
        simp only [changeAt, List.map_map]
        congr 1
        exact List.map_congr_left fun u _ => ih u
      | _ => rfl

theorem updateSeq_changeAt (h : ∀ u, f (changeAt g q u) = changeAt g q (f u)) :
    (v : Yaml) → updateSeq f (changeAt g (.each :: q) v) = changeAt g (.each :: q) (updateSeq f v)
  | .seq items => by
    rw [changeAt, updateSeq, updateSeq, changeAt, List.map_map, List.map_map]
    congr 1
    exact List.map_congr_left fun u _ => h u
  | .tagged tag v => by simp [changeAt, updateSeq]
  | .null | .bool _ | .int _ | .float _ | .str _ | .map _ => by simp [changeAt, updateSeq]

theorem updateSeq_updateSeq (f g : Yaml → Yaml) :
    (v : Yaml) → updateSeq f (updateSeq g v) = updateSeq (f ∘ g) v
  | .tagged tag v => by rw [updateSeq, updateSeq, updateSeq, updateSeq_updateSeq f g v]
  | .seq items => by simp [updateSeq]
  | .null | .bool _ | .int _ | .float _ | .str _ | .map _ => by simp [updateSeq]

/-! ### Images -/

/-- Moves the images of a list of containers. -/
def moveListed (registry list : String) : Yaml → Yaml :=
  updateKey list (updateSeq (updateKey "image" (moveImage registry)))

/-- Moves the images of a pod. -/
def moveInPod (registry : String) (pod : Yaml) : Yaml :=
  moveListed registry "initContainers" (moveListed registry "containers" pod)

theorem moveImage_moveImage (registry : String) (image : Yaml) :
    moveImage registry (moveImage registry image) = moveImage registry image := by
  refine moveImage_eq_self fun current hText => ?_
  rw [moveImage] at hText
  cases hImage : image.asText? with
  | none => simp [hImage] at hText
  | some text =>
    simp only [hImage] at hText
    split at hText
    · rename_i hSame
      rw [hImage, Option.some.injEq] at hText
      rw [← hText, hSame]
    · rw [Yaml.asText?_str, Option.some.injEq] at hText
      rw [← hText, Image.inRegistry_idem]

theorem moveListed_moveListed (registry list : String) (pod : Yaml) :
    moveListed registry list (moveListed registry list pod) = moveListed registry list pod := by
  have hImage : updateKey "image" (moveImage registry) ∘ updateKey "image" (moveImage registry) =
      updateKey "image" (moveImage registry) := by
    funext container
    have hMove : moveImage registry ∘ moveImage registry = moveImage registry :=
      funext (moveImage_moveImage registry)
    rw [Function.comp_apply, Yaml.updateKey_updateKey, hMove]
  rw [moveListed, Yaml.updateKey_updateKey]
  congr 1
  funext containers
  rw [Function.comp_apply, updateSeq_updateSeq, hImage]

theorem moveInPod_moveInPod (registry : String) (pod : Yaml) :
    moveInPod registry (moveInPod registry pod) = moveInPod registry pod := by
  have hSwap : ∀ pod, moveListed registry "containers" (moveListed registry "initContainers" pod) =
      moveListed registry "initContainers" (moveListed registry "containers" pod) :=
    Yaml.updateKey_comm (by decide) _ _
  rw [moveInPod, moveInPod, hSwap, moveListed_moveListed, moveListed_moveListed]

/-- A change in a pod that is not one of the image of a container can be made before or after the
images move. -/
theorem moveListed_changeAt {key : String} (list registry : String)
    (h : key = list → ∃ p, q = .each :: .key "env" :: p) (f : Yaml → Yaml) (pod : Yaml) :
    moveListed registry list (changeAt f (.key key :: q) pod) =
      changeAt f (.key key :: q) (moveListed registry list pod) := by
  rw [changeAt, changeAt, moveListed]
  by_cases hKey : key = list
  · obtain ⟨p, rfl⟩ := h hKey
    subst hKey
    rw [Yaml.updateKey_updateKey, Yaml.updateKey_updateKey]
    congr 1
    funext containers
    refine updateSeq_changeAt (fun container => ?_) containers
    exact Yaml.updateKey_comm (by decide) _ _ container
  · exact Yaml.updateKey_comm (Ne.symm hKey) _ _ pod

theorem moveInPod_changeAt {key : String} (registry : String)
    (h : key ∈ containerLists → ∃ p, q = .each :: .key "env" :: p) (f : Yaml → Yaml) (pod : Yaml) :
    moveInPod registry (changeAt f (.key key :: q) pod) =
      changeAt f (.key key :: q) (moveInPod registry pod) := by
  have hListed : ∀ list ∈ containerLists, key = list → ∃ p, q = .each :: .key "env" :: p := by
    rintro list hList rfl
    exact h hList
  rw [moveInPod, moveInPod, moveListed_changeAt "containers" registry (hListed _ (by decide)),
    moveListed_changeAt "initContainers" registry (hListed _ (by decide))]

/-! ### Underscores -/

theorem dashText_dashText (v : Yaml) : dashText (dashText v) = dashText v := by
  cases v with
  | str s => rw [dashText, dashText, dashed_eq_self (underscore_notMem_dashed s)]
  | _ => rfl

theorem dashedKey_dashedKey (k : Yaml) : dashedKey (dashedKey k) = dashedKey k := by
  cases k with
  | str s => rw [dashedKey, dashedKey, dashed_eq_self (underscore_notMem_dashed s)]
  | _ => rfl

/-- A map that gets an entry keeps its keys apart, and has no others besides the new one. -/
theorem keysApart_insert {m : List (Yaml × Yaml)} (h : KeysApart m) (key value : Yaml) :
    KeysApart (OrderedMap.insert m key value) ∧
      ∀ e ∈ OrderedMap.insert m key value, e.1 = key ∨ ∃ d ∈ m, e.1 = d.1 := by
  induction m with
  | nil => exact ⟨List.pairwise_singleton _ _, by simp [OrderedMap.insert]⟩
  | cons d m ih =>
    obtain ⟨k, v⟩ := d
    obtain ⟨hHead, hRest⟩ := List.pairwise_cons.1 h
    obtain ⟨hApart, hKeys⟩ := ih hRest
    rw [OrderedMap.insert]
    split
    · refine ⟨List.pairwise_cons.2 ⟨hHead, hRest⟩, fun e he => ?_⟩
      rcases List.mem_cons.1 he with rfl | he
      · exact .inr ⟨(k, v), List.mem_cons_self .., rfl⟩
      · exact .inr ⟨e, List.mem_cons_of_mem _ he, rfl⟩
    · rename_i hNe
      refine ⟨List.pairwise_cons.2 ⟨fun e he => ?_, hApart⟩, fun e he => ?_⟩
      · rcases hKeys e he with hKey | ⟨d, hd, hKey⟩
        · rw [hKey]
          simpa using hNe
        · rw [hKey]
          exact hHead d hd
      · rcases List.mem_cons.1 he with rfl | he
        · exact .inr ⟨(k, v), List.mem_cons_self .., rfl⟩
        · rcases hKeys e he with hKey | ⟨d, hd, hKey⟩
          · exact .inl hKey
          · exact .inr ⟨d, List.mem_cons_of_mem _ hd, hKey⟩

/-- The map of a list of entries has its keys apart, each one of those in the list. -/
theorem keysApart_ofList (entries : List (Yaml × Yaml)) :
    KeysApart (OrderedMap.ofList entries) ∧
      ∀ e ∈ OrderedMap.ofList entries, ∃ d ∈ entries, e.1 = d.1 := by
  suffices hFrom : ∀ m : List (Yaml × Yaml), KeysApart m →
      KeysApart (entries.foldl (fun m e => OrderedMap.insert m e.1 e.2) m) ∧
        ∀ e ∈ entries.foldl (fun m e => OrderedMap.insert m e.1 e.2) m,
          ∃ d ∈ m ++ entries, e.1 = d.1 from hFrom [] List.Pairwise.nil
  induction entries with
  | nil => exact fun m hm => ⟨hm, fun e he => ⟨e, List.mem_append_left _ he, rfl⟩⟩
  | cons d entries ih =>
    intro m hm
    obtain ⟨hInsert, hKeys⟩ := keysApart_insert hm d.1 d.2
    obtain ⟨hApart, hAll⟩ := ih _ hInsert
    refine ⟨hApart, fun e he => ?_⟩
    obtain ⟨c, hc, hKey⟩ := hAll e he
    rw [List.mem_append] at hc
    rcases hc with hc | hc
    · rcases hKeys c hc with hNew | ⟨b, hb, hOld⟩
      · exact ⟨d, by simp, hKey.trans hNew⟩
      · exact ⟨b, List.mem_append_left _ hb, hKey.trans hOld⟩
    · exact ⟨c, by simp [hc], hKey⟩

theorem dashKeys_dashKeys (v : Yaml) : dashKeys (dashKeys v) = dashKeys v := by
  cases v with
  | map entries =>
    obtain ⟨hApart, hKeys⟩ := keysApart_ofList (dashedEntries entries)
    have hDashed : dashedEntries (OrderedMap.ofList (dashedEntries entries)) =
        OrderedMap.ofList (dashedEntries entries) := by
      conv_rhs => rw [← List.map_id (OrderedMap.ofList (dashedEntries entries))]
      refine List.map_congr_left fun e he => ?_
      obtain ⟨d, hd, hKey⟩ := hKeys e he
      obtain ⟨c, -, rfl⟩ := List.mem_map.1 hd
      have hSame : dashedKey e.1 = e.1 := by rw [hKey, dashedKey_dashedKey]
      rw [hSame]
      rfl
    rw [dashKeys_map, dashKeys_map, hDashed, ofList_of_keysApart hApart]
  | _ => rfl

/-! ### Passes -/

/-- A change at a path of the objects of some kinds. -/
structure Pass where
  applies : Option String → Bool
  path : List Step
  change : Yaml → Yaml

namespace Pass

variable {a b : Pass}

/-- A document after a pass. -/
def run (a : Pass) (v : Yaml) : Yaml :=
  if a.applies (kindOf v) then changeAt a.change a.path v else v

/-- A pass that changes no kind of an object, and nothing when it is made again. -/
structure Settles (a : Pass) : Prop where
  kind : partAtKey [.key "kind"] a.path = true
  again : ∀ v, a.change (a.change v) = a.change v

theorem kindOf_changeAt (h : partAtKey [.key "kind"] p = true) (f : Yaml → Yaml) (v : Yaml) :
    kindOf (changeAt f p v) = kindOf v := by
  have hParts : partAtKey (["kind"].map .key) p = true := h
  have hAt := at?_changeAt_of_parts hParts f v
  simp only [Yaml.at?_cons, Yaml.at?_nil, Option.bind_fun_some] at hAt
  rw [kindOf, kindOf, hAt]

theorem Settles.kindOf_run (h : a.Settles) (v : Yaml) : kindOf (a.run v) = kindOf v := by
  rw [run]
  split
  · exact kindOf_changeAt h.kind _ v
  · rfl

theorem Settles.run_run (h : a.Settles) (v : Yaml) : a.run (a.run v) = a.run v := by
  have hAgain : a.change ∘ a.change = a.change := funext h.again
  rw [run, h.kindOf_run]
  split
  · rename_i hKind
    rw [run, if_pos hKind, changeAt_changeAt, hAgain]
  · rfl

/-- Two passes whose changes can be made in either order can be made in either order. -/
theorem run_comm (ha : a.Settles) (hb : b.Settles)
    (h : ∀ v, changeAt a.change a.path (changeAt b.change b.path v) =
      changeAt b.change b.path (changeAt a.change a.path v)) (v : Yaml) :
    a.run (b.run v) = b.run (a.run v) := by
  have hLeft : a.run (b.run v) =
      if a.applies (kindOf v) then changeAt a.change a.path (b.run v) else b.run v := by
    rw [run, hb.kindOf_run]
  have hRight : b.run (a.run v) =
      if b.applies (kindOf v) then changeAt b.change b.path (a.run v) else a.run v := by
    rw [run, ha.kindOf_run]
  rw [hLeft, hRight, run, run]
  cases a.applies (kindOf v) <;> cases b.applies (kindOf v)
  · rfl
  · rfl
  · rfl
  · exact h v

end Pass

/-- The pass of a rule for underscores. -/
def dashPass (rule : List Step × (Yaml → Yaml)) : Pass := ⟨fun _ => true, rule.1, rule.2⟩

/-- The pass that sets the namespace. -/
def spacePass (name : String) : Pass :=
  ⟨fun kind => !kind.any Manifest.isClusterKind, [.key "metadata"],
    setKey "namespace" (.str name)⟩

/-- The pass that moves the images to a registry. -/
def imagePass (registry : String) : Pass :=
  ⟨fun kind => kind.any workloadKinds.contains, template ++ [.key "spec"], moveInPod registry⟩

theorem run_spacePass (name : String) (v : Yaml) :
    (spacePass name).run v = setNamespace name v := by
  rw [Pass.run, setNamespace]
  cases hKind : (kindOf v).any Manifest.isClusterKind <;> simp [spacePass, hKind, changeAt]

theorem run_imagePass (registry : String) (v : Yaml) :
    (imagePass registry).run v = moveImages registry v := rfl

theorem settles_spacePass (name : String) : (spacePass name).Settles where
  kind := rfl
  again := Yaml.setKey_setKey "namespace" (.str name)

theorem settles_imagePass (registry : String) : (imagePass registry).Settles where
  kind := rfl
  again := moveInPod_moveInPod registry

theorem settles_dashPass : ∀ rule ∈ dashRules, (dashPass rule).Settles := by
  simp only [dashRules, List.forall_mem_cons]
  exact ⟨⟨rfl, dashText_dashText⟩, ⟨rfl, dashKeys_dashKeys⟩, ⟨rfl, dashKeys_dashKeys⟩,
    ⟨rfl, dashText_dashText⟩, ⟨rfl, dashText_dashText⟩, ⟨rfl, dashText_dashText⟩,
    ⟨rfl, dashText_dashText⟩, ⟨rfl, dashText_dashText⟩, ⟨rfl, dashText_dashText⟩,
    List.forall_mem_nil _⟩

/-- The rules for underscores are at paths that part. -/
theorem pairwise_dashRules :
    dashRules.Pairwise fun rule other => partAtKey rule.1 other.1 = true := by
  have hPaths : (dashRules.map (·.1)).Pairwise fun p q => partAtKey p q = true := by decide
  exact List.pairwise_map.1 hPaths

/-- The rules for underscores can be followed in any order. -/
theorem pairwise_dashPasses : (dashRules.map dashPass).Pairwise
    fun a b => ∀ d, a.run (b.run d) = b.run (a.run d) :=
  List.pairwise_map.2 <| pairwise_dashRules.imp_of_mem fun {rule other} hRule hOther hParts =>
    Pass.run_comm (settles_dashPass rule hRule) (settles_dashPass other hOther)
      (changeAt_comm hParts _ _)

/-- The namespace is not one of the names that lose their underscores. -/
theorem changeAt_spacePass (name : String) : ∀ rule ∈ dashRules, ∀ v,
    changeAt (setKey "namespace" (.str name)) [.key "metadata"] (changeAt rule.2 rule.1 v) =
      changeAt rule.2 rule.1 (changeAt (setKey "namespace" (.str name)) [.key "metadata"] v) := by
  intro rule hRule v
  have hPaths : ∀ p ∈ dashRules.map (·.1),
      p = [.key "metadata"] ++ [.key "name"] ∨ partAtKey [.key "metadata"] p = true := by decide
  rcases hPaths _ (List.mem_map_of_mem hRule) with hPath | hParts
  · rw [hPath]
    refine changeAt_comm_below (fun u => ?_) [.key "metadata"] v
    exact Yaml.setKey_updateKey (by decide) (.str name) _ u
  · exact changeAt_comm hParts _ _ v

/-- No image is among the texts that lose their underscores. -/
theorem changeAt_imagePass (registry : String) : ∀ rule ∈ dashRules, ∀ v,
    changeAt (moveInPod registry) (template ++ [.key "spec"]) (changeAt rule.2 rule.1 v) =
      changeAt rule.2 rule.1 (changeAt (moveInPod registry) (template ++ [.key "spec"]) v) := by
  intro rule hRule v
  have hPaths : ∀ p ∈ dashRules.map (·.1),
      p = template ++ [.key "spec"] ++ [.key "hostname"] ∨
        (∃ list ∈ containerLists, p = environmentValues (template ++ [.key "spec"]) list) ∨
        partAtKey (template ++ [.key "spec"]) p = true := by decide
  rcases hPaths _ (List.mem_map_of_mem hRule) with hPath | ⟨list, -, hPath⟩ | hParts
  · rw [hPath]
    exact changeAt_comm_below (moveInPod_changeAt registry (fun h => absurd h (by decide)) rule.2)
      _ v
  · rw [hPath, environmentValues]
    exact changeAt_comm_below (moveInPod_changeAt registry (fun _ => ⟨_, rfl⟩) rule.2) _ v
  · exact changeAt_comm hParts _ _ v

end Revise

open Revise (Pass spacePass imagePass dashPass kindOf changeAt partAtKey dashRules)

namespace Manifest.Revision

variable {o : Revision} {a : Pass}

/-- The passes of a revision in their order. -/
def passes (o : Revision) : List Pass :=
  (o.namespace.toList.map spacePass ++ o.registry.toList.map imagePass) ++
    dashRules.map dashPass

theorem revised_eq_foldl (o : Revision) (d : Yaml) :
    o.revised d = o.passes.foldl (fun d a => a.run d) d := by
  have hDash : ∀ d, Revise.dashNames d = (dashRules.map dashPass).foldl (fun d a => a.run d) d := by
    intro d
    rw [List.foldl_map]
    rfl
  rw [revised, placed, passes, List.foldl_append, List.foldl_append, hDash]
  congr 1
  cases o.namespace <;> cases o.registry <;>
    simp [Revise.run_spacePass, Revise.run_imagePass]

theorem settles_passes (o : Revision) : ∀ a ∈ o.passes, a.Settles := by
  intro a ha
  rw [passes, List.mem_append, List.mem_append] at ha
  rcases ha with (ha | ha) | ha
  · obtain ⟨name, -, rfl⟩ := List.mem_map.1 ha
    exact Revise.settles_spacePass name
  · obtain ⟨registry, -, rfl⟩ := List.mem_map.1 ha
    exact Revise.settles_imagePass registry
  · obtain ⟨rule, hRule, rfl⟩ := List.mem_map.1 ha
    exact Revise.settles_dashPass rule hRule

/-- The passes of a revision can be made in any order. -/
theorem pairwise_passes (o : Revision) :
    o.passes.Pairwise fun a b => ∀ d, a.run (b.run d) = b.run (a.run d) := by
  have hOption : ∀ {α : Type} (x : Option α) (f : α → Pass) (r : Pass → Pass → Prop),
      (x.toList.map f).Pairwise r := by
    intro α x f r
    cases x <;> simp
  rw [passes, List.pairwise_append, List.pairwise_append]
  refine ⟨⟨hOption .., hOption .., ?_⟩, ?_, ?_⟩
  · intro a ha b hb
    obtain ⟨name, -, rfl⟩ := List.mem_map.1 ha
    obtain ⟨registry, -, rfl⟩ := List.mem_map.1 hb
    exact Pass.run_comm (Revise.settles_spacePass name) (Revise.settles_imagePass registry)
      (Revise.changeAt_comm (by rfl) _ _)
  · exact Revise.pairwise_dashPasses
  · intro a ha b hb
    obtain ⟨rule, hRule, rfl⟩ := List.mem_map.1 hb
    rcases List.mem_append.1 ha with ha | ha
    · obtain ⟨name, -, rfl⟩ := List.mem_map.1 ha
      exact Pass.run_comm (Revise.settles_spacePass name) (Revise.settles_dashPass rule hRule)
        (Revise.changeAt_spacePass name rule hRule)
    · obtain ⟨registry, -, rfl⟩ := List.mem_map.1 ha
      exact Pass.run_comm (Revise.settles_imagePass registry) (Revise.settles_dashPass rule hRule)
        (Revise.changeAt_imagePass registry rule hRule)

/-- A revised document has nothing left for any pass. -/
theorem run_revised (o : Revision) (d : Yaml) :
    ∀ a ∈ o.passes, a.run (o.revised d) = o.revised d := by
  have hIdem : ∀ f ∈ o.passes.map Pass.run, ∀ d, f (f d) = f d :=
    List.forall_mem_map.2 fun a ha => (o.settles_passes a ha).run_run
  have hFixed := foldl_fixed hIdem (List.pairwise_map.2 o.pairwise_passes)
  intro a ha
  have hRun := hFixed a.run (List.mem_map_of_mem ha) d
  rw [List.foldl_map] at hRun
  rwa [revised_eq_foldl]

/-- A document for which no pass has anything left stays as it is. -/
theorem revised_eq_self {d : Yaml} (h : ∀ a ∈ o.passes, a.run d = d) : o.revised d = d := by
  have hEach : ∀ f ∈ o.passes.map Pass.run, f d = d := List.forall_mem_map.2 h
  have hFold := foldl_eq_self hEach
  rw [List.foldl_map] at hFold
  rwa [revised_eq_foldl]

/-- A document that is revised again stays as it is. -/
theorem revised_revised (o : Revision) (d : Yaml) : o.revised (o.revised d) = o.revised d :=
  revised_eq_self (o.run_revised d)

end Manifest.Revision

end KubeCompose
