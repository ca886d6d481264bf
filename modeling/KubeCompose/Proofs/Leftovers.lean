import KubeCompose.Proofs.Passes
import KubeCompose.Proofs.Written

/-!
# Revising the manifests of an earlier conversion

An earlier conversion leaves its daemon sets in the directory, and a later one writes the
deployments beside them. A revision finds nothing to do in such a daemon set, and makes the same
daemon set once more of its deployment.
-/

namespace KubeCompose

open OrderedMap (keys find?_append find?_cons)
open KubeCompose.Path (child)
open Revise (reached asDaemonSet dashNames dashRules environmentPath dashText)
open Workspace (Filled)
open Yaml (fields get?_fields find?_listField)

/-! ### Daemon sets that are in place -/

namespace Workload

variable {w : Workload}

theorem get?_env_container (env : List Yaml) (ports : List Nat) (probe : Yaml)
    (mounts : List Yaml) :
    (w.container env ports probe mounts).get? "env" =
      if env = [] then none else some (.seq env) := by
  simp [container, get?_fields, find?_cons, find?_append, find?_listField]

theorem reached_values (env : List (String × String)) :
    reached [.each, .key "value"]
        (.seq (env.map fun e => fields [("name", .str e.1), ("value", .str e.2)])) =
      env.map fun e => .str e.2 := by
  rw [reached, List.flatMap_map, List.map_eq_flatMap]
  exact List.flatMap_congr fun e _ => by simp [reached, get?_fields, find?_cons]

theorem reached_environmentPath (w : Workload) :
    reached environmentPath (asDaemonSet w.deployment) =
      w.environment.map fun e => .str e.2 := by
  have hValues : (w.deploymentContainer.get? "env").toList.flatMap
      (reached [.each, .key "value"]) = w.environment.map fun e => .str e.2 := by
    rw [deploymentContainer, get?_env_container]
    cases hPairs : w.environment with
    | nil => rfl
    | cons e r => simpa using reached_values (e :: r)
  rw [asDaemonSet_deployment, ← hValues]
  simp [environmentPath, Revise.template, Revise.environmentValues, reached, object, podTemplate,
    get?_fields, find?_cons]

theorem reached_daemonSet (hName : '_' ∉ w.name.toList) :
    ∀ rule ∈ dashRules.take 4 ++ dashRules.drop 5,
      ∀ u ∈ reached rule.1 (asDaemonSet w.deployment), rule.2 u = u := by
  have hDashed := Revise.dashed_eq_self hName
  rw [asDaemonSet_deployment]
  simp [dashRules, reached, object, Revise.template, Revise.environmentValues, podTemplate,
    selector, metadata, metadataNamed, get?_fields, find?_cons, find?_listField, dashText, hDashed,
    dashKeys_labels]

/-- The rules for underscores change nothing in a daemon set with dashes in its values. -/
theorem dashNames_asDaemonSet (hName : '_' ∉ w.name.toList)
    (hValues : ∀ e ∈ w.environment, Revise.dashed e.2 = e.2) :
    dashNames (asDaemonSet w.deployment) = asDaemonSet w.deployment := by
  refine Revise.foldl_changeAt_eq_self fun rule hRule => ?_
  rw [Revise.dashRules_eq, List.mem_append, List.mem_cons] at hRule
  have hOther := reached_daemonSet hName
  rcases hRule with hBefore | rfl | hBehind
  · exact hOther rule (List.mem_append_left _ hBefore)
  · rw [reached_environmentPath]
    refine List.forall_mem_map.2 fun e he => ?_
    simp only [dashText, hValues e he]
  · exact hOther rule (List.mem_append_right _ hBehind)

/-- The settled daemon set of a workload is in place. -/
theorem InPlace.daemonSet {o : Manifest.Revision} (h : w.InPlace o) :
    (⟨.daemonSet, w.name, asDaemonSet w.withDashedValues.deployment⟩ : Manifest).InPlace o where
  placed := by
    rw [Manifest.Revision.placed, h.space]
    apply Revise.setNamespace_eq_self
    rw [asDaemonSet_deployment]
    simp [object, metadata, metadataNamed, withDashedValues, get?_fields, find?_cons]
  images registry hRegistry image hMem := by
    have hTemplate : (asDaemonSet w.withDashedValues.deployment).at? ["spec", "template"] =
        some (w.withDashedValues.podTemplate w.withDashedValues.deploymentContainer
          w.withDashedValues.dataVolumes) := by
      rw [asDaemonSet_deployment]
      simp [object, get?_fields, find?_cons]
    rw [images_template hTemplate image hMem]
    exact h.image registry hRegistry
  dashes := by
    have hValues : ∀ e ∈ w.withDashedValues.environment, Revise.dashed e.2 = e.2 :=
      List.forall_mem_map.2 fun e _ => Yaml.str.inj (Revise.dashText_dashText (.str e.2))
    exact dashNames_asDaemonSet h.name hValues

end Workload

/-! ### What an earlier conversion leaves -/

namespace ConvertOptions

variable {options : ConvertOptions} {m left : Manifest}

/-- What an earlier conversion leaves of a manifest under another name than its own: the daemon set
of a deployment. -/
def leftover (options : ConvertOptions) (m : Manifest) : List Manifest :=
  if m.kind = .deployment ∧ options.runsEverywhere m.stem = true then [options.settled m] else []

/-- What a conversion leaves of a manifest under its own name. -/
def staying (options : ConvertOptions) (m : Manifest) : List Manifest :=
  if m.kind = .deployment ∧ options.runsEverywhere m.stem = true then [] else [options.settled m]

theorem staying_append_leftover (options : ConvertOptions) (m : Manifest) :
    options.staying m ++ options.leftover m = [options.settled m] := by
  rw [staying, leftover]
  split <;> rfl

theorem mem_leftover :
    left ∈ options.leftover m ↔
      (m.kind = .deployment ∧ options.runsEverywhere m.stem = true) ∧ left = options.settled m := by
  rw [leftover]
  split
  · rename_i hDaemon
    simp [hDaemon]
  · rename_i hNot
    simp [hNot]

theorem kind_of_mem_leftover (h : left ∈ options.leftover m) : left.kind = .daemonSet := by
  obtain ⟨hDaemon, rfl⟩ := mem_leftover.1 h
  rw [settled, if_pos hDaemon]

/-- What is no deployment is settled. -/
theorem settled_eq_self (h : m.kind ≠ .deployment) : options.settled m = m := by
  rw [settled, if_neg fun hDaemon => h hDaemon.1, Manifest.withDashedValues, if_neg h]

theorem staying_of_mem_leftover (h : left ∈ options.leftover m) :
    options.staying left = [left] := by
  have hKind : left.kind ≠ .deployment := by simp [kind_of_mem_leftover h]
  rw [staying, if_neg fun hDaemon => hKind hDaemon.1, settled_eq_self hKind]

/-- What is left of manifests, under their own names and under others, are the settled ones. -/
theorem staying_append_leftover_perm (options : ConvertOptions) (set : List Manifest) :
    (set.flatMap options.staying ++ set.flatMap options.leftover).Perm
      (set.map options.settled) := by
  have hSettled : set.flatMap (fun m => options.staying m ++ options.leftover m) =
      set.map options.settled := by
    simp only [staying_append_leftover, List.map_eq_flatMap]
  rw [← hSettled]
  exact List.flatMap_append_perm set options.staying options.leftover

/-- What stays of manifests and of what was left of them are the settled manifests. -/
theorem staying_leftover_perm (options : ConvertOptions) (set : List Manifest) :
    ((set ++ set.flatMap options.leftover).flatMap options.staying).Perm
      (set.map options.settled) := by
  have hLeft : (set.flatMap options.leftover).flatMap options.staying =
      set.flatMap options.leftover := by
    rw [List.flatMap_assoc]
    refine List.flatMap_congr fun m _ => ?_
    have hEach : ∀ left ∈ options.leftover m, options.staying left = [left] :=
      fun left => staying_of_mem_leftover
    rw [List.flatMap_congr hEach, List.flatMap_singleton']
  rw [List.flatMap_append, hLeft]
  exact staying_append_leftover_perm options set

end ConvertOptions

section Planned

variable {settings : Settings} {options : ConvertOptions}
  {services : OrderedMap String Compose.Service} {vars : DotEnv} {plan : Plan} {space : String}

/-- What an earlier conversion leaves of a planned manifest is ready for another revision. -/
theorem Planned.ready_leftover (h : Planned settings options services vars space plan) :
    ∀ m ∈ plan.manifests, ∀ left ∈ options.leftover m, left.Ready options space := by
  intro m hm left hLeft
  have hReady := h.ready m hm
  have hKind := ConvertOptions.kind_of_mem_leftover hLeft
  have hSelf : options.settled left = left :=
    ConvertOptions.settled_eq_self (by simp [hKind])
  obtain ⟨hDaemon, rfl⟩ := ConvertOptions.mem_leftover.1 hLeft
  have hInPlace : (options.settled m).InPlace (options.revision space) := by
    rcases h.mem_manifests hm with rfl | ⟨e, -, hWorkload⟩
    · exact absurd hDaemon.1 (by simp [Manifest.ofNamespace])
    · have hPlace := inPlace_workloadOf settings options vars space e.1 e.2
      have hStem := Workload.stem_of_mem_manifests hWorkload
      rw [ConvertOptions.settled, if_pos hDaemon, Workload.withDashedValues_eq hWorkload hDaemon.1,
        hStem]
      exact hPlace.daemonSet
  refine ⟨?_, hInPlace, fun hDeployment => ?_, hReady.settledWritable, ?_⟩
  · rw [options.stem_settled, hReady.stem]
  · rw [hKind] at hDeployment
    cases hDeployment
  · rw [hSelf]
    exact hReady.settledWritable

end Planned

/-! ### A later revision -/

namespace Manifest

variable {options : ConvertOptions} {space directory : String} {l : Location}
  {w₁ w : Workspace} {m : Manifest} {others kept : OrderedMap String Entry} {r : RevisionReport}
  {pending : List Manifest}

/-- A file that is stored under the name of another one with the same text is there no more under
its own. -/
theorem Revision.store_over {name other : String} {old : ByteArray} {executable : Bool}
    (hFilled : Filled w₁ directory l ((name, .file old executable) :: others) w)
    (hBase : w₁.entries l ⊆ others) (hName : Path.IsName name)
    (hShort : (child directory name).utf8ByteSize ≤ Path.lengthLimit) (text : String)
    (r : RevisionReport) (hOther : Path.IsName other)
    (hSize : other.utf8ByteSize ≤ name.utf8ByteSize)
    (hThere : (other, .file text.toUTF8 false) ∈ others) :
    ∃ w' r', store (child directory name) (some (Path.withFileName (child directory name) other))
        text w r = (w', r') ∧
      Filled w₁ directory l others w' ∧ (r.Clean → r'.Clean) := by
  have hMem := List.mem_cons_of_mem (name, Entry.file old executable) hThere
  have hTarget := Workspace.reaches_withFileName hFilled.leadsTo hName hOther hSize hShort
  have hWrite := Workspace.write_file hTarget (hFilled.find?_of_mem hMem) text.toUTF8
  have hAgain := hFilled.put_self hMem
  have hReaches := Workspace.reaches_child hAgain.leadsTo hName hShort
  have hDelete := Workspace.delete_file hReaches (hAgain.find?_of_mem (List.mem_cons_self ..))
  let target := Path.withFileName (child directory name) other
  refine ⟨_, { r with revised := r.revised + 1, daemonSets := r.daemonSets ++ [target] }, ?_,
    hAgain.remove hBase, fun h => ⟨h.problems, h.renamed, h.moved⟩⟩
  rw [store, Option.getD_some, hWrite]
  simp only [hDelete, target]

/-- A revision of the file of a deployment whose daemon set is there already takes it away. -/
theorem reviseFile_over (hReady : m.Ready options space) (hReads : m.document.ReadsBack)
    (hShort : (child directory m.fileName).utf8ByteSize ≤ Path.lengthLimit)
    (hFilled : Filled w₁ directory l (m.entry :: others) w) (hBase : w₁.entries l ⊆ others)
    (hDaemon : m.kind = .deployment ∧ options.runsEverywhere m.stem = true)
    (hThere : (options.settled m).entry ∈ others) (hClean : r.Clean) :
    ∃ w' r', (options.revision space).reviseFile (w, r) (child directory m.fileName) = (w', r') ∧
      Filled w₁ directory l others w' ∧ r'.Clean := by
  have hOther : Path.IsName (options.settled m).fileName :=
    isName_fileName (by rw [options.stem_settled, hReady.stem])
  obtain ⟨w', r', hStore, hFilled', hKeep⟩ := Revision.store_over hFilled hBase
    (isName_fileName hReady.stem) hShort (options.settled m).document.render r hOther
    (options.utf8ByteSize_fileName_settled m) hThere
  rw [reviseFile_eq_store hReady hReads hShort hFilled, if_pos hDaemon]
  exact ⟨w', r', hStore, hFilled', hKeep hClean⟩

/-- What the steps of a revision need where an earlier conversion has left its daemon sets: the
daemon set of each deployment is among the manifests, or among the other entries. -/
structure Again (options : ConvertOptions) (space directory : String)
    (kept : OrderedMap String Entry) (pending : List Manifest) : Prop where
  ready : ∀ m ∈ pending, m.Ready options space
  reads : ∀ m ∈ pending, m.document.ReadsBack
  short : ∀ m ∈ pending, (child directory m.fileName).utf8ByteSize ≤ Path.lengthLimit
  there : ∀ m ∈ pending, ∀ left ∈ options.leftover m, left ∈ pending ∨ left.entry ∈ kept

theorem Again.of_perm (h : Again options space directory kept pending) {ordered : List Manifest}
    (hPerm : ordered.Perm pending) : Again options space directory kept ordered where
  ready m hm := h.ready m (hPerm.subset hm)
  reads m hm := h.reads m (hPerm.subset hm)
  short m hm := h.short m (hPerm.subset hm)
  there m hm left hLeft := (h.there m (hPerm.subset hm) left hLeft).imp_left (hPerm.mem_iff.2 ·)

/-- Behind the first manifest, what was there is there still, if it is not that manifest. -/
theorem Again.of_cons {others : OrderedMap String Entry}
    (h : Again options space directory kept (m :: pending)) (hKept : kept ⊆ others)
    (hHead : ∀ n, m ∈ options.leftover n → m.entry ∈ others) :
    Again options space directory others pending where
  ready n hn := h.ready n (List.mem_cons_of_mem m hn)
  reads n hn := h.reads n (List.mem_cons_of_mem m hn)
  short n hn := h.short n (List.mem_cons_of_mem m hn)
  there n hn left hLeft := by
    rcases h.there n (List.mem_cons_of_mem m hn) left hLeft with hPending | hThere
    · rcases List.mem_cons.1 hPending with rfl | hPending
      · exact .inr (hHead n hLeft)
      · exact .inl hPending
    · exact .inr (hKept hThere)

/-- The steps on the files of manifests among which are the daemon sets of an earlier conversion. -/
theorem foldl_reviseFile_again (hSet : Again options space directory kept pending)
    (hFilled : Filled w₁ directory l (pending.map entry ++ kept) w) (hBase : w₁.entries l ⊆ kept)
    (hClean : r.Clean) :
    ∃ w' r', (pending.map fun m => child directory m.fileName).foldl
        (options.revision space).reviseFile (w, r) = (w', r') ∧
      Filled w₁ directory l ((pending.flatMap options.staying).map entry ++ kept) w' ∧
      r'.Clean := by
  induction pending generalizing kept w r with
  | nil => exact ⟨w, r, rfl, hFilled, hClean⟩
  | cons m pending ih =>
    have hMem := List.mem_cons_self (a := m) (l := pending)
    have hBelow := List.subset_append_of_subset_right (pending.map entry) hBase
    by_cases hDaemon : m.kind = .deployment ∧ options.runsEverywhere m.stem = true
    · -- the daemon set stays, and the deployment goes
      have hNew : ∀ n, m ∉ options.leftover n := by
        intro n hLeft
        have hKind := ConvertOptions.kind_of_mem_leftover hLeft
        rw [hDaemon.1] at hKind
        cases hKind
      have hLeft : options.settled m ∈ options.leftover m :=
        ConvertOptions.mem_leftover.2 ⟨hDaemon, rfl⟩
      have hThere : (options.settled m).entry ∈ pending.map entry ++ kept := by
        rcases hSet.there m hMem _ hLeft with hPending | hKept
        · have hOther : options.settled m ≠ m := fun hSame => hNew m (by rwa [hSame] at hLeft)
          exact List.mem_append_left _
            (List.mem_map_of_mem ((List.mem_cons.1 hPending).resolve_left hOther))
        · exact List.mem_append_right _ hKept
      have hRest := hSet.of_cons (List.Subset.refl kept) fun n h => absurd h (hNew n)
      obtain ⟨v, s, hStep, hStepFilled, hStepClean⟩ := reviseFile_over (hSet.ready m hMem)
        (hSet.reads m hMem) (hSet.short m hMem) hFilled hBelow hDaemon hThere hClean
      obtain ⟨w', r', hFold, hFilled', hClean'⟩ := ih hRest hStepFilled hBase hStepClean
      refine ⟨w', r', ?_, ?_, hClean'⟩
      · rw [List.map_cons, List.foldl_cons, hStep, hFold]
      · rwa [List.flatMap_cons, ConvertOptions.staying, if_pos hDaemon]
    · have hName : (options.settled m).fileName = m.fileName := by
        rw [ConvertOptions.settled, if_neg hDaemon]
        rfl
      have hFree : (options.settled m).fileName ∉ keys (pending.map entry ++ kept) := by
        rw [hName]
        exact (List.nodup_cons.1 hFilled.distinct).1
      have hRest := hSet.of_cons (List.subset_cons_self (options.settled m).entry kept) <| by
        intro n hLeft
        have hKind : m.kind ≠ .deployment := by simp [ConvertOptions.kind_of_mem_leftover hLeft]
        rw [ConvertOptions.settled_eq_self hKind]
        exact List.mem_cons_self ..
      obtain ⟨v, s, hStep, hStepFilled, hStepClean⟩ := reviseFile_entry (hSet.ready m hMem)
        (hSet.reads m hMem) (hSet.short m hMem) hFilled hBelow hFree hClean
      obtain ⟨w', r', hFold, hFilled', hClean'⟩ := ih hRest
        (hStepFilled.of_perm List.perm_middle.symm) (List.subset_cons_of_subset _ hBase) hStepClean
      refine ⟨w', r', ?_, ?_, hClean'⟩
      · rw [List.map_cons, List.foldl_cons, hStep, hFold]
      · rw [List.flatMap_cons, ConvertOptions.staying, if_neg hDaemon]
        exact hFilled'.of_perm List.perm_middle

/-- A revision of a directory in which manifests stand beside the daemon sets of an earlier
conversion leaves what stays of them, and a clean report. -/
theorem run_again (hSet : Again options space directory kept pending)
    (hKept : ∀ e ∈ kept, IsNoManifest directory e) (hBase : w₁.entries l ⊆ kept)
    (hFilled : Filled w₁ directory l (pending.map entry ++ kept) w) :
    ∃ w' r', (options.revision space).run directory w = (w', r') ∧
      Filled w₁ directory l ((pending.flatMap options.staying).map entry ++ kept) w' ∧
      r'.Clean := by
  refine run_of_steps _ (fun m hm => (hSet.ready m hm).stem) (fun m _ n hn => ?_) hKept hFilled
    fun ordered hPerm _ hOrdered =>
      foldl_reviseFile_again (hSet.of_perm hPerm) hOrdered hBase ⟨rfl, rfl, rfl⟩
  rw [ConvertOptions.staying] at hn
  split at hn
  · cases hn
  · rw [List.mem_singleton.1 hn, options.stem_settled]

end Manifest

end KubeCompose
