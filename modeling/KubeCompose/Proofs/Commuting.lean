import KubeCompose.Proofs.Repeated

/-!
# Changes of a document in any order

The four changes that are made to a document, its namespace, its images, its underscores and its
kind, are each made once and for all, and any two of them can be made in either order. No other
change touches what an image is found by, so that as many images move before it as after it.

Three of the four are passes at paths that a daemon set keeps; the fourth takes away what no pass
looks at, and makes one kind with a template of pods of another.
-/

namespace KubeCompose

namespace Revise

open Yaml (updateKey updateSeq setKey removeKey)

variable {d : Yaml} {a : Pass} {f : Yaml → Yaml}

/-! ### Images -/

/-- The image of a container. -/
def imageOf (container : Yaml) : Option String := (container.get? "image").bind fun v => v.asText?

/-- The images of a sequence of containers. -/
def imagesIn (containers : Yaml) : List String := (containers.asSeq?.getD []).filterMap imageOf

/-- The images of a list of containers in a pod. -/
def listedImages (list : String) (pod : Yaml) : List String :=
  ((pod.get? list).map imagesIn).getD []

/-- The images of a pod. -/
def podImages (pod : Yaml) : List String :=
  listedImages "containers" pod ++ listedImages "initContainers" pod

theorem images_eq (d : Yaml) : images d =
    if isWorkload d then ((d.at? ["spec", "template", "spec"]).map podImages).getD [] else [] := by
  have hListed : ∀ list pod, (((pod.get? list).bind fun v : Yaml => v.asSeq?).getD []).filterMap
      imageOf = listedImages list pod := by
    intro list pod
    rw [listedImages]
    cases pod.get? list <;> rfl
  rw [images]
  split
  · cases d.at? ["spec", "template", "spec"] with
    | none => rfl
    | some pod =>
      change containerLists.flatMap (fun list => List.filterMap imageOf _) = podImages pod
      simp only [containerLists, List.flatMap_cons, List.flatMap_nil, List.append_nil, hListed]
      rfl
  · rfl

theorem asText?_moveImage (registry : String) (image : Yaml) :
    (moveImage registry image).asText? =
      image.asText?.map fun i => Image.inRegistry i registry := by
  rw [moveImage]
  cases hText : image.asText? with
  | none => simp [hText]
  | some current =>
    simp only [Option.map_some]
    split
    · rename_i hSame
      rw [hText, hSame]
    · rw [Yaml.asText?_str]

theorem asSeq?_updateSeq (f : Yaml → Yaml) :
    (v : Yaml) → (updateSeq f v).asSeq? = v.asSeq?.map (List.map f)
  | .tagged tag v => by
    rw [updateSeq]
    exact asSeq?_updateSeq f v
  | .seq items => by simp [updateSeq, Yaml.asSeq?, Yaml.untagged]
  | .null | .bool _ | .int _ | .float _ | .str _ | .map _ => by
    simp [updateSeq, Yaml.asSeq?, Yaml.untagged]

theorem imagesIn_updateSeq (registry : String) (containers : Yaml) :
    imagesIn (updateSeq (updateKey "image" (moveImage registry)) containers) =
      (imagesIn containers).map fun i => Image.inRegistry i registry := by
  have hImage : imageOf ∘ updateKey "image" (moveImage registry) =
      fun c => (imageOf c).map fun i => Image.inRegistry i registry := by
    funext c
    rw [Function.comp_apply, imageOf, imageOf, Yaml.get?_updateKey]
    cases c.get? "image" with
    | none => rfl
    | some image => exact asText?_moveImage registry image
  rw [imagesIn, imagesIn, asSeq?_updateSeq]
  cases containers.asSeq? with
  | none => rfl
  | some items =>
    rw [Option.map_some, Option.getD_some, Option.getD_some, List.filterMap_map, hImage,
      List.map_filterMap]

theorem listedImages_moveListed (registry list : String) (pod : Yaml) :
    listedImages list (moveListed registry list pod) =
      (listedImages list pod).map fun i => Image.inRegistry i registry := by
  rw [listedImages, listedImages, moveListed, Yaml.get?_updateKey]
  cases pod.get? list with
  | none => rfl
  | some containers => exact imagesIn_updateSeq registry containers

theorem listedImages_moveListed_of_ne {list other : String} (h : list ≠ other) (registry : String)
    (pod : Yaml) : listedImages list (moveListed registry other pod) = listedImages list pod := by
  rw [listedImages, listedImages, moveListed, Yaml.get?_updateKey_of_ne h]

theorem podImages_moveInPod (registry : String) (pod : Yaml) :
    podImages (moveInPod registry pod) =
      (podImages pod).map fun i => Image.inRegistry i registry := by
  rw [podImages, podImages, moveInPod, listedImages_moveListed_of_ne (by decide),
    listedImages_moveListed, listedImages_moveListed, listedImages_moveListed_of_ne (by decide),
    List.map_append]

/-- The images of a document whose images moved are the images in the registry. -/
theorem images_moveImages (registry : String) (d : Yaml) :
    images (moveImages registry d) = (images d).map fun i => Image.inRegistry i registry := by
  have hKind : isWorkload (moveImages registry d) = isWorkload d := by
    rw [isWorkload, isWorkload, ← run_imagePass, (settles_imagePass registry).kindOf_run]
  rw [images_eq, images_eq, hKind]
  split
  · rename_i hWorkload
    have hAt : (moveImages registry d).at? ["spec", "template", "spec"] =
        (d.at? ["spec", "template", "spec"]).map (moveInPod registry) := by
      rw [moveImages, if_pos hWorkload]
      exact at?_changeAt (moveInPod registry) ["spec", "template", "spec"] [] d
    rw [hAt]
    cases d.at? ["spec", "template", "spec"] with
    | none => rfl
    | some pod => exact podImages_moveInPod registry pod
  · rfl

/-- No image is left to move when the images moved. -/
theorem movedCount_moveImages (registry : String) (d : Yaml) :
    movedCount registry (moveImages registry d) = 0 := by
  refine movedCount_eq_zero fun image hImage => ?_
  rw [images_moveImages, List.mem_map] at hImage
  obtain ⟨old, -, rfl⟩ := hImage
  exact Image.inRegistry_idem old registry

/-- A change of the environment of containers leaves their images. -/
theorem imagesIn_changeAt (f : Yaml → Yaml) (p : List Step) (containers : Yaml) :
    imagesIn (changeAt f (.each :: .key "env" :: p) containers) = imagesIn containers := by
  have hImage : imageOf ∘ changeAt f (.key "env" :: p) = imageOf := by
    funext c
    rw [Function.comp_apply, imageOf, changeAt, Yaml.get?_updateKey_of_ne (by decide), imageOf]
  cases containers with
  | seq items =>
    rw [changeAt]
    change (items.map _).filterMap imageOf = items.filterMap imageOf
    rw [List.filterMap_map, hImage]
  | _ => rfl

/-- A change in a pod that is not one of its lists of containers, or one of the environment of the
containers, leaves its images. -/
theorem podImages_changeAt {key : String} {q : List Step}
    (h : key ∈ containerLists → ∃ p, q = .each :: .key "env" :: p) (f : Yaml → Yaml) (pod : Yaml) :
    podImages (changeAt f (.key key :: q) pod) = podImages pod := by
  have hListed : ∀ list ∈ containerLists,
      listedImages list (changeAt f (.key key :: q) pod) = listedImages list pod := by
    intro list hList
    rw [listedImages, listedImages, changeAt]
    by_cases hKey : key = list
    · obtain ⟨p, rfl⟩ := h (hKey ▸ hList)
      rw [hKey, Yaml.get?_updateKey]
      cases pod.get? list with
      | none => rfl
      | some containers => exact imagesIn_changeAt f p containers
    · rw [Yaml.get?_updateKey_of_ne (Ne.symm hKey)]
  rw [podImages, hListed _ (by decide), hListed _ (by decide), podImages]

/-- The paths of changes that leave the images of an object: they part from the path of its pod, or
lead to a part of the pod that is no image. -/
def sparesImages (p : List Step) : Prop :=
  partAtKey (template ++ [.key "spec"]) p = true ∨
    ∃ key q, p = template ++ [.key "spec"] ++ .key key :: q ∧
      (key ∈ containerLists → ∃ r, q = .each :: .key "env" :: r)

theorem images_run (ha : a.Settles) (h : sparesImages a.path) (d : Yaml) :
    images (a.run d) = images d := by
  have hKind : isWorkload (a.run d) = isWorkload d := by
    rw [isWorkload, isWorkload, ha.kindOf_run]
  have hPods : ((a.run d).at? ["spec", "template", "spec"]).map podImages =
      (d.at? ["spec", "template", "spec"]).map podImages := by
    rw [Pass.run]
    split
    · rcases h with hParts | ⟨key, q, hPath, hSpare⟩
      · have hApart : partAtKey (["spec", "template", "spec"].map .key) a.path = true := hParts
        rw [at?_changeAt_of_parts hApart]
      · have hAt : (changeAt a.change a.path d).at? ["spec", "template", "spec"] =
            (d.at? ["spec", "template", "spec"]).map (changeAt a.change (.key key :: q)) := by
          rw [hPath]
          exact at?_changeAt a.change ["spec", "template", "spec"] (.key key :: q) d
        rw [hAt, Option.map_map]
        congr 1
        funext pod
        exact podImages_changeAt hSpare a.change pod
    · rfl
  rw [images_eq, images_eq, hKind, hPods]

theorem sparesImages_dashRules : ∀ rule ∈ dashRules, sparesImages rule.1 := by
  have hPod : ∀ list, sparesImages (environmentValues (template ++ [.key "spec"]) list) :=
    fun list => .inr ⟨list, _, rfl, fun _ => ⟨_, rfl⟩⟩
  have hHost : sparesImages (template ++ [.key "spec"] ++ [.key "hostname"]) :=
    .inr ⟨"hostname", [], rfl, fun h => absurd h (by decide)⟩
  simp only [dashRules, List.forall_mem_cons]
  exact ⟨.inl rfl, .inl rfl, .inl rfl, hHost, hPod _, hPod _, .inl rfl, .inl rfl, .inl rfl,
    List.forall_mem_nil _⟩

/-! ### Underscores -/

theorem dashNames_eq_foldl (d : Yaml) :
    dashNames d = ((dashRules.map dashPass).map Pass.run).foldl (fun d f => f d) d := by
  rw [List.foldl_map, List.foldl_map]
  rfl

theorem settles_of_mem_dashPasses : ∀ a ∈ dashRules.map dashPass, a.Settles :=
  List.forall_mem_map.2 settles_dashPass

theorem dashNames_dashNames (d : Yaml) : dashNames (dashNames d) = dashNames d := by
  have hIdem : ∀ f ∈ (dashRules.map dashPass).map Pass.run, ∀ d, f (f d) = f d :=
    List.forall_mem_map.2 fun a ha => (settles_of_mem_dashPasses a ha).run_run
  have hComm : ((dashRules.map dashPass).map Pass.run).Pairwise
      fun f g => ∀ d, f (g d) = g (f d) := List.pairwise_map.2 pairwise_dashPasses
  have hFixed := fun f hf => foldl_fixed hIdem hComm f hf d
  rw [dashNames_eq_foldl, dashNames_eq_foldl]
  exact foldl_eq_self hFixed

/-- A pass that can be made before or after each rule for underscores can be made before or after
all of them. -/
theorem run_dashNames (ha : a.Settles) (h : ∀ rule ∈ dashRules, ∀ v,
    changeAt a.change a.path (changeAt rule.2 rule.1 v) =
      changeAt rule.2 rule.1 (changeAt a.change a.path v)) (d : Yaml) :
    a.run (dashNames d) = dashNames (a.run d) := by
  rw [dashNames_eq_foldl, dashNames_eq_foldl]
  refine foldl_comm (P := fun _ => True) (fun _ _ _ _ => trivial)
    (List.forall_mem_map.2 <| List.forall_mem_map.2 fun rule hRule e _ => ?_) trivial
  exact Pass.run_comm ha (settles_dashPass rule hRule) (h rule hRule) e

theorem images_dashNames (d : Yaml) : images (dashNames d) = images d := by
  refine List.foldlRecOn (motive := fun e => images e = images d) dashRules _ rfl ?_
  intro e he rule hRule
  rw [← he]
  exact images_run (settles_dashPass rule hRule) (sparesImages_dashRules rule hRule) e

/-! ### Daemon sets -/

theorem kindOf_demoted (h : TopKeysDiffer d) (hKind : kindOf d = some "Deployment") :
    kindOf (demoted d) = some "DaemonSet" := by
  obtain ⟨entries, hEntries⟩ : ∃ entries, d.asMap? = some entries := by
    rw [← Option.isSome_iff_exists, Option.isSome_iff_ne_none]
    intro hNone
    simp [kindOf, Yaml.get?, hNone] at hKind
  have hOnce : (setKey "apiVersion" (.str "apps/v1") (setKey "kind" (.str "DaemonSet") d)).Once
      "kind" := ((h.top "kind").setKey_self _).setKey (by decide) _
  rw [kindOf, demoted, Yaml.get?_updateKey_of_ne (by decide),
    Yaml.get?_removeKey_of_ne (by decide) hOnce, Yaml.get?_setKey_of_ne (by decide),
    Yaml.get?_setKey_self hEntries, Option.bind_some, Yaml.asText?_str]

theorem toDaemonSet_toDaemonSet (h : TopKeysDiffer d) :
    toDaemonSet (toDaemonSet d) = toDaemonSet d := by
  by_cases hKind : kindOf d = some "Deployment"
  · rw [toDaemonSet_eq d, if_pos hKind, toDaemonSet_eq, kindOf_demoted h hKind, if_neg (by decide)]
  · rw [toDaemonSet_eq d, if_neg hKind, toDaemonSet_eq, if_neg hKind]

/-- A pass for deployments that is one for daemon sets, too, and changes what a daemon set keeps can
be made before or after a deployment becomes a daemon set. -/
theorem toDaemonSet_run (ha : a.Settles) (hKept : isKept a.path = true)
    (hKinds : a.applies (some "DaemonSet") = a.applies (some "Deployment")) (h : TopKeysDiffer d) :
    toDaemonSet (a.run d) = a.run (toDaemonSet d) := by
  by_cases hKind : kindOf d = some "Deployment"
  · have hRun : a.run (demoted d) =
        if a.applies (some "Deployment") then changeAt a.change a.path (demoted d)
        else demoted d := by
      rw [Pass.run, kindOf_demoted h hKind, hKinds]
    rw [toDaemonSet_eq, ha.kindOf_run, if_pos hKind, toDaemonSet_eq, if_pos hKind, hRun, Pass.run,
      hKind]
    split
    · exact (changeAt_demoted hKept h a.change).symm
    · rfl
  · rw [toDaemonSet_eq, ha.kindOf_run, if_neg hKind, toDaemonSet_eq, if_neg hKind]

theorem toDaemonSet_dashNames (h : TopKeysDiffer d) :
    toDaemonSet (dashNames d) = dashNames (toDaemonSet d) := by
  rw [dashNames_eq_foldl, dashNames_eq_foldl]
  refine foldl_comm (P := TopKeysDiffer)
    (List.forall_mem_map.2 <| List.forall_mem_map.2 fun rule hRule e he => ?_)
    (List.forall_mem_map.2 <| List.forall_mem_map.2 fun rule hRule e he => ?_) h
  · exact he.run (isKept_dashRules rule hRule)
  · exact toDaemonSet_run (settles_dashPass rule hRule) (isKept_dashRules rule hRule) rfl he

/-- A daemon set has the pods of the deployment that it was. -/
theorem at?_demoted (h : TopKeysDiffer d) {key : String} (hReplicas : key ≠ "replicas")
    (hStrategy : key ≠ "strategy") (path : List String) :
    (demoted d).at? ("spec" :: key :: path) = d.at? ("spec" :: key :: path) := by
  have hOnce : (setKey "apiVersion" (.str "apps/v1") (setKey "kind" (.str "DaemonSet") d)).Once
      "spec" := ((h.top "spec").setKey (by decide) _).setKey (by decide) _
  have hSpec : (demoted d).get? "spec" =
      (d.get? "spec").map fun spec => removeKey "strategy" (removeKey "replicas" spec) := by
    rw [demoted, Yaml.get?_updateKey, Yaml.get?_removeKey_of_ne (by decide) hOnce,
      Yaml.get?_setKey_of_ne (by decide), Yaml.get?_setKey_of_ne (by decide)]
  rw [Yaml.at?_cons, Yaml.at?_cons, hSpec]
  cases hOld : d.get? "spec" with
  | none => rfl
  | some spec =>
    have hInner := h.spec spec hOld key
    rw [Option.map_some, Option.bind_some, Option.bind_some, Yaml.at?_cons, Yaml.at?_cons,
      Yaml.get?_removeKey_of_ne hStrategy (hInner.removeKey _),
      Yaml.get?_removeKey_of_ne hReplicas hInner]

theorem images_toDaemonSet (h : TopKeysDiffer d) : images (toDaemonSet d) = images d := by
  by_cases hKind : kindOf d = some "Deployment"
  · have hWorkload : isWorkload d = true := by
      rw [isWorkload, hKind]
      decide
    have hStill : isWorkload (demoted d) = true := by
      rw [isWorkload, kindOf_demoted h hKind]
      decide
    rw [toDaemonSet_eq, if_pos hKind, images_eq, images_eq, hWorkload, hStill,
      at?_demoted h (by decide) (by decide)]
  · rw [toDaemonSet_eq, if_neg hKind]

/-! ### The four changes -/

/-- The changes of a document, each with how many images it moves. -/
def changes (name registry : String) : List (Yaml → Yaml × Nat) :=
  [fun d => (setNamespace name d, 0),
   fun d => (moveImages registry d, movedCount registry d),
   fun d => (dashNames d, 0),
   fun d => (toDaemonSet d, 0)]

/-- A document after one change and then another, with how many images move in both. -/
def inTurn (f g : Yaml → Yaml × Nat) (d : Yaml) : Yaml × Nat :=
  ((g (f d).1).1, (f d).2 + (g (f d).1).2)

theorem settled_changes (name registry : String) (h : TopKeysDiffer d) :
    ∀ f ∈ changes name registry, f (f d).1 = ((f d).1, 0) := by
  have hSpace : setNamespace name (setNamespace name d) = setNamespace name d := by
    rw [← run_spacePass, ← run_spacePass, (settles_spacePass name).run_run]
  have hImages : moveImages registry (moveImages registry d) = moveImages registry d :=
    (settles_imagePass registry).run_run d
  simp only [changes, List.forall_mem_cons]
  refine ⟨?_, ?_, ?_, ?_, List.forall_mem_nil _⟩
  · rw [hSpace]
  · rw [hImages, movedCount_moveImages]
  · rw [dashNames_dashNames]
  · rw [toDaemonSet_toDaemonSet h]

/-- A change that moves no images and leaves those there are can be made before or after the images
move when the document comes out the same. -/
theorem inTurn_moveImages {registry : String} (hSame : f (moveImages registry d) =
    moveImages registry (f d)) (hImages : images (f d) = images d) :
    inTurn (fun d => (moveImages registry d, movedCount registry d)) (fun d => (f d, 0)) d =
      inTurn (fun d => (f d, 0)) (fun d => (moveImages registry d, movedCount registry d)) d := by
  have hCount : movedCount registry (f d) = movedCount registry d := by
    rw [movedCount, movedCount, hImages]
  rw [inTurn, inTurn, hSame, hCount, Nat.add_zero, Nat.zero_add]

theorem pairwise_changes (name registry : String) (h : TopKeysDiffer d) :
    (changes name registry).Pairwise fun f g => inTurn f g d = inTurn g f d := by
  have hSpace := settles_spacePass name
  have hImages := settles_imagePass registry
  have hNamespaced : (!Manifest.isClusterKind "DaemonSet") =
      !Manifest.isClusterKind "Deployment" := by decide
  have hWorkloads : workloadKinds.contains "DaemonSet" = workloadKinds.contains "Deployment" := by
    decide
  have hSpaceImages : setNamespace name (moveImages registry d) =
      moveImages registry (setNamespace name d) := by
    rw [← run_spacePass, ← run_spacePass]
    exact Pass.run_comm hSpace hImages (changeAt_comm rfl _ _) d
  have hSpaceDashes : setNamespace name (dashNames d) = dashNames (setNamespace name d) := by
    rw [← run_spacePass, ← run_spacePass]
    exact run_dashNames hSpace (changeAt_spacePass name) d
  have hSpaceDaemon : toDaemonSet (setNamespace name d) = setNamespace name (toDaemonSet d) := by
    rw [← run_spacePass, ← run_spacePass]
    exact toDaemonSet_run hSpace rfl hNamespaced h
  have hImagesDashes : moveImages registry (dashNames d) = dashNames (moveImages registry d) :=
    run_dashNames hImages (changeAt_imagePass registry) d
  have hImagesDaemon : toDaemonSet (moveImages registry d) = moveImages registry (toDaemonSet d) :=
    toDaemonSet_run hImages rfl hWorkloads h
  have hSpared : images (setNamespace name d) = images d := by
    rw [← run_spacePass]
    exact images_run hSpace (.inl rfl) d
  simp only [changes, List.pairwise_cons, List.forall_mem_cons]
  refine ⟨⟨?_, ?_, ?_, List.forall_mem_nil _⟩, ⟨?_, ?_, List.forall_mem_nil _⟩,
    ⟨?_, List.forall_mem_nil _⟩, List.forall_mem_nil _, List.Pairwise.nil⟩
  · exact (inTurn_moveImages hSpaceImages hSpared).symm
  · rw [inTurn, inTurn, hSpaceDashes]
  · rw [inTurn, inTurn, hSpaceDaemon]
  · exact inTurn_moveImages hImagesDashes.symm (images_dashNames d)
  · exact inTurn_moveImages hImagesDaemon (images_toDaemonSet h)
  · rw [inTurn, inTurn, toDaemonSet_dashNames h]

/-- Each change of a document is made once and for all, and no images are left to move when it is
made again. Any two changes can be made in either order: the document is the same and as many images
move. -/
theorem changes_settle_and_commute (name registry : String) (h : d.keysDiffer = true) :
    ∀ f ∈ changes name registry, f (f d).1 = ((f d).1, 0) ∧
      ∀ g ∈ changes name registry, inTurn f g d = inTurn g f d := by
  have hTop := topKeysDiffer_of_keysDiffer h
  have hPairs := pairwise_changes name registry hTop
  intro f hf
  refine ⟨settled_changes name registry hTop f hf, fun g hg => ?_⟩
  exact List.Pairwise.forall_of_forall_of_flip (R := fun f g => inTurn f g d = inTurn g f d)
    (fun _ _ => rfl) hPairs (hPairs.imp Eq.symm) hf hg

/-- A deployment that all four changes change. -/
def renamedDeployment : Yaml :=
  .fields [("kind", .str "Deployment"), ("status", .map []),
    ("metadata", .fields [("name", .str "order_service")]),
    ("spec", .fields [("replicas", .int 2), ("template", .fields [("spec", .fields
      [("containers", .seq [.fields [("image", .str "nginx")]])])])])]

theorem changes_settle_and_commute_deployment :
    renamedDeployment.keysDiffer = true ∧
      ∀ f ∈ changes "shop" "registry.example.com", f (f renamedDeployment).1 =
          ((f renamedDeployment).1, 0) ∧
        ∀ g ∈ changes "shop" "registry.example.com",
          inTurn f g renamedDeployment = inTurn g f renamedDeployment :=
  have hKeys : renamedDeployment.keysDiffer = true := by decide +kernel
  ⟨hKeys, changes_settle_and_commute "shop" "registry.example.com" hKeys⟩

end Revise

end KubeCompose
