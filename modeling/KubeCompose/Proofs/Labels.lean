import KubeCompose.Proofs.Distinct
import KubeCompose.Proofs.NormalForm

/-!
# Names and labels of planned objects

A name goes into the objects of a service as it was assigned, except into the claim for its data,
whose name has a suffix behind it. So the values of all labels and selectors in a planned document
are DNS labels, and so is the name of every object but the claim of a service with a long name:
nothing cuts the name where the suffix is put behind it. `isLabel_of_planOf` says so of every object
of a plan.
-/

namespace KubeCompose

open Yaml (fields)

/-! ### The labels in a document -/

namespace Yaml

/-- The keys under which labels stand. -/
def labelKeys : List String := ["labels", "matchLabels", "selector"]

/-- Whether labels stand under a key. -/
def isLabelKey : Yaml → Bool
  | .str key => labelKeys.contains key
  | _ => false

/-- What the keys of a mapping are given, mappings apart. -/
def pairValues (v : Yaml) : List Yaml :=
  ((v.asMap?.getD []).map (·.2)).filter (·.asMap?.isNone)

mutual

/-- The values of the labels and selectors anywhere in a value. -/
def labelValues : Yaml → List Yaml
  | .seq items => itemLabelValues items
  | .map entries => entryLabelValues entries
  | .tagged _ v => labelValues v
  | _ => []

/-- The values of the labels and selectors in a list of values. -/
def itemLabelValues : List Yaml → List Yaml
  | [] => []
  | v :: r => labelValues v ++ itemLabelValues r

/-- The values of the labels and selectors in a mapping with these entries. -/
def entryLabelValues : List (Yaml × Yaml) → List Yaml
  | [] => []
  | (k, v) :: r =>
    (if k.isLabelKey then v.pairValues else []) ++ labelValues v ++ entryLabelValues r

end

/-- Each key of a mapping is given this name, or another mapping. -/
def GivesOnly (name : String) (v : Yaml) : Prop := ∀ u ∈ v.pairValues, u = .str name

/-- Every label in a value has this name as its value. -/
def LabelledBy (name : String) (v : Yaml) : Prop := ∀ u ∈ v.labelValues, u = .str name

variable {name : String}

@[simp] theorem labelledBy_str (s : String) : LabelledBy name (.str s) := by
  simp [LabelledBy, labelValues]

@[simp] theorem labelledBy_int (n : Int) : LabelledBy name (.int n) := by
  simp [LabelledBy, labelValues]

@[simp] theorem labelledBy_seq {items : List Yaml} :
    LabelledBy name (.seq items) ↔ ∀ v ∈ items, LabelledBy name v := by
  have hItems : (∀ u ∈ itemLabelValues items, u = .str name) ↔
      ∀ v ∈ items, LabelledBy name v := by
    induction items with
    | nil => simp [itemLabelValues]
    | cons v r ih =>
      rw [itemLabelValues, List.forall_mem_append, ih, List.forall_mem_cons, LabelledBy]
  rw [← hItems, LabelledBy, labelValues]

@[simp] theorem labelledBy_fields {entries : List (String × Yaml)} :
    LabelledBy name (fields entries) ↔
      ∀ e ∈ entries,
        (e.1 ∈ labelKeys → GivesOnly name e.2) ∧ LabelledBy name e.2 := by
  have hEntries : (∀ u ∈ entryLabelValues (entries.map fun e => (.str e.1, e.2)), u = .str name) ↔
      ∀ e ∈ entries,
        (e.1 ∈ labelKeys → GivesOnly name e.2) ∧ LabelledBy name e.2 := by
    induction entries with
    | nil => simp [entryLabelValues]
    | cons e r ih =>
      have hKey : (∀ u ∈ (if (Yaml.str e.1).isLabelKey = true then e.2.pairValues else []),
          u = .str name) ↔ (e.1 ∈ labelKeys → GivesOnly name e.2) := by
        rw [isLabelKey, GivesOnly]
        by_cases hMem : e.1 ∈ labelKeys <;> simp [hMem]
      rw [List.map_cons, entryLabelValues, List.forall_mem_append, List.forall_mem_append, ih,
        List.forall_mem_cons, hKey, LabelledBy]
  rw [← hEntries, LabelledBy, fields, labelValues]

@[simp] theorem givesOnly_str (s : String) : GivesOnly name (.str s) := List.forall_mem_nil _

@[simp] theorem givesOnly_seq (items : List Yaml) : GivesOnly name (.seq items) :=
  List.forall_mem_nil _

@[simp] theorem givesOnly_fields {entries : List (String × Yaml)} :
    GivesOnly name (fields entries) ↔
      ∀ e ∈ entries, e.2.asMap? = none → e.2 = .str name := by
  simp only [GivesOnly, pairValues, asMap?_fields, Option.getD_some, List.map_map, List.mem_filter,
    List.mem_map, and_imp, forall_exists_index, forall_apply_eq_imp_iff₂, Function.comp_apply,
    Option.isNone_iff_eq_none]

theorem labelledBy_listField {key : String} {items : List Yaml} :
    (∀ e ∈ listField key items,
        (e.1 ∈ labelKeys → GivesOnly name e.2) ∧ LabelledBy name e.2) ↔
      ∀ v ∈ items, LabelledBy name v := by
  cases items with
  | nil => simp [listField]
  | cons v r => simp [listField]

theorem labelledBy_textMap (data : List (String × String)) : LabelledBy name (textMap data) := by
  rw [textMap, labelledBy_fields]
  refine List.forall_mem_map.2 fun e _ => ?_
  simp

end Yaml

open Yaml (GivesOnly LabelledBy labelledBy_listField)

/-! ### The labels of a workload -/

namespace Workload

variable {w : Workload}

theorem labelledBy_labels (w : Workload) :
    GivesOnly w.name w.labels ∧ LabelledBy w.name w.labels := by
  simp [labels]

theorem labelledBy_selector (w : Workload) :
    GivesOnly w.name w.selector ∧ LabelledBy w.name w.selector := by
  simp [selector, labels, Yaml.labelKeys]

theorem labelledBy_metadata (w : Workload) : LabelledBy w.name w.metadata := by
  simp [metadata, metadataNamed, Yaml.labelKeys]

theorem labelledBy_claimSpec (name : String) : LabelledBy name claimSpec := by
  simp [claimSpec, Yaml.labelKeys]

theorem labelledBy_probe (name image : String) (port : Option Nat) :
    LabelledBy name (Probe.ofImage image port) := by
  rw [Probe.ofImage]
  split <;> simp [Probe.byCommand, Probe.byPort, Probe.times, Yaml.labelKeys]

theorem labelledBy_container {env mounts : List Yaml} {ports : List Nat} {probe : Yaml}
    (hEnv : ∀ v ∈ env, LabelledBy w.name v) (hProbe : LabelledBy w.name probe)
    (hMounts : ∀ v ∈ mounts, LabelledBy w.name v) :
    LabelledBy w.name (w.container env ports probe mounts) := by
  have hPorts : ∀ v ∈ ports.map containerPort, LabelledBy w.name v := by
    refine List.forall_mem_map.2 fun n _ => ?_
    simp [containerPort, Yaml.labelKeys]
  rw [container, Yaml.labelledBy_fields]
  simp only [List.forall_mem_append, labelledBy_listField]
  refine ⟨⟨⟨⟨hEnv, ?_⟩, hPorts⟩, ?_⟩, hMounts⟩
  · simp [hProbe, Yaml.labelKeys]
  · simp [hProbe, resources, Yaml.labelKeys]

theorem labelledBy_podTemplate {c : Yaml} {volumes : List Yaml} (hContainer : LabelledBy w.name c)
    (hVolumes : ∀ v ∈ volumes, LabelledBy w.name v) :
    LabelledBy w.name (w.podTemplate c volumes) := by
  have hSpec : LabelledBy w.name
      (fields (("containers", .seq [c]) :: Yaml.listField "volumes" volumes)) := by
    rw [Yaml.labelledBy_fields, List.forall_mem_cons, labelledBy_listField]
    exact ⟨by simpa using hContainer, hVolumes⟩
  simp [podTemplate, hSpec, w.labelledBy_labels, Yaml.labelKeys]

theorem labelledBy_dataMount (name path : String) : LabelledBy name (dataMount path) := by
  simp [dataMount, Yaml.labelKeys]

/-! ### The labels of the objects -/

theorem labelledBy_deployment (w : Workload) : LabelledBy w.name w.deployment := by
  have hContainer : LabelledBy w.name w.deploymentContainer := by
    refine labelledBy_container ?_ (labelledBy_probe _ _ _) ?_
    · refine List.forall_mem_map.2 fun e _ => ?_
      simp [Yaml.labelKeys]
    · rw [dataMounts]
      cases w.dataPath? <;> simp [labelledBy_dataMount]
  have hTemplate : LabelledBy w.name (w.podTemplate w.deploymentContainer w.dataVolumes) := by
    refine labelledBy_podTemplate hContainer ?_
    rw [dataVolumes]
    cases w.dataPath? <;> simp [Yaml.labelKeys]
  rw [deployment_eq]
  simp [object, hTemplate, w.labelledBy_metadata, w.labelledBy_selector, Yaml.labelKeys]

theorem labelledBy_statefulSet (w : Workload) (d : Database) (governor : String) :
    LabelledBy w.name (w.statefulSet d governor) := by
  have hEnv : ∀ v ∈ (databaseSettings d w.name w.environment).map (fun e =>
      fields
        [("name", .str e.1),
         ("valueFrom",
          fields [("configMapKeyRef", fields [("key", .str e.1), ("name", .str w.name)])])]),
      LabelledBy w.name v := by
    refine List.forall_mem_map.2 fun e _ => ?_
    simp [Yaml.labelKeys]
  have hContainer : LabelledBy w.name (w.container _ [d.port] _ [dataMount d.mountPath]) :=
    labelledBy_container hEnv (labelledBy_probe _ w.service.imageLower (some d.port))
      (List.forall_mem_singleton.2 (labelledBy_dataMount _ _))
  have hTemplate : LabelledBy w.name (w.podTemplate _ []) :=
    labelledBy_podTemplate hContainer (List.forall_mem_nil _)
  simp [statefulSet, object, hTemplate, w.labelledBy_metadata, w.labelledBy_selector,
    labelledBy_claimSpec, Yaml.labelKeys]

theorem labelledBy_frontService (w : Workload) : LabelledBy w.name w.frontService := by
  simp [frontService, object, w.labelledBy_metadata, w.labelledBy_labels, Yaml.labelKeys]

theorem labelledBy_configMapOf (w : Workload) (data : List (String × String)) :
    LabelledBy w.name (w.configMapOf data) := by
  simp [configMapOf, object, w.labelledBy_metadata, Yaml.labelledBy_textMap, Yaml.labelKeys]

theorem labelledBy_ingress (w : Workload) : LabelledBy w.name w.ingress := by
  simp [ingress, object, Yaml.labelKeys]

theorem labelledBy_volumeClaim (w : Workload) : LabelledBy w.name w.volumeClaim := by
  simp [volumeClaim, object, metadataNamed, labelledBy_claimSpec, Yaml.labelKeys]

/-- Every label in the objects of a service is its name. -/
theorem labelledBy_pods (w : Workload) : LabelledBy w.name w.pods.document := by
  rw [pods]
  cases w.classification.database with
  | some d => exact labelledBy_statefulSet w d w.name
  | none => exact labelledBy_deployment w

theorem labelledBy_manifests (w : Workload) : ∀ m ∈ w.manifests, LabelledBy w.name m.document :=
  forall_mem_manifests (labelledBy_pods w) (labelledBy_frontService w)
    (fun _ => labelledBy_configMapOf w _) (labelledBy_configMapOf w _) (labelledBy_ingress w)
    (labelledBy_volumeClaim w)

end Workload

/-! ### Names -/

namespace Name

theorem isLabel_of_ofText {s name : String} (h : ofText s = .ok name) : isLabel name = true := by
  obtain ⟨rfl, hNe⟩ := ofText_eq_ok_iff.1 h
  exact (normalize_eq_of_runs s).2.2.1.resolve_left hNe

/-- A label with the suffix of a claim behind it is a label when there is room for the suffix. -/
theorem isLabel_claimName_iff {name : String} (h : isLabel name = true) :
    isLabel (Workload.claimName name) = true ↔ name.toList.length ≤ 58 := by
  have hSuffix : "-data".toList = ['-', 'd', 'a', 't', 'a'] := by decide
  have hEnds : ∀ c ∈ ['-', 'd', 'a', 't', 'a'], (isLabelChar c || c == '-') = true := by decide
  simp only [isLabel, isLabelChars, Bool.and_eq_true, decide_eq_true_eq, List.all_eq_true] at h
  obtain ⟨⟨⟨-, hChars⟩, hHead⟩, -⟩ := h
  have hNe : name.toList ≠ [] := by
    intro hNil
    rw [hNil] at hHead
    exact absurd hHead (by decide)
  have hFirst : ((name.toList ++ ['-', 'd', 'a', 't', 'a']).head?.any isLabelChar) = true := by
    rw [List.head?_append_of_ne_nil _ hNe]
    exact hHead
  have hLast : ((name.toList ++ ['-', 'd', 'a', 't', 'a']).getLast?.any isLabelChar) = true := by
    rw [List.getLast?_append]
    rfl
  simp only [isLabel, isLabelChars, Workload.claimName, String.toList_append, hSuffix,
    Bool.and_eq_true, decide_eq_true_eq, List.all_eq_true, hFirst, hLast, and_true, maxLength,
    List.length_append, List.length_cons, List.length_nil]
  constructor
  · intro hLabel
    have hLength := hLabel.1
    omega
  · intro hLength
    refine ⟨by omega, fun c hc => ?_⟩
    exact (List.mem_append.1 hc).elim (hChars c) (hEnds c)

end Name

/-! ### The objects of a plan -/

/-- What the name of an object of a service is a label for: always, but for a claim only when the
suffix fits behind the name of the service. -/
theorem Workload.isLabel_objectName_iff {w : Workload} (h : Name.isLabel w.name = true)
    (kind : ManifestKind) :
    Name.isLabel (w.objectName kind) = true ↔
      (kind = .volumeClaim → w.name.toList.length ≤ 58) := by
  rw [objectName]
  by_cases hKind : kind = .volumeClaim
  · rw [if_pos hKind, Name.isLabel_claimName_iff h]
    simp [hKind]
  · simp [hKind, h]

theorem labelledBy_ofNamespace (space : String) :
    LabelledBy space (Manifest.ofNamespace space).document := by
  simp [Manifest.ofNamespace, Workload.object, Yaml.labelKeys]

/-- Every value of a label or a selector in a planned object is a DNS label. So is the name of every
planned object, but that of a claim only when the suffix fits behind the name of its service. -/
theorem isLabel_of_planOf {settings : Settings} {options : ConvertOptions}
    {services : OrderedMap String Compose.Service} {vars : DotEnv} {plan : Plan} {m : Manifest}
    (h : planOf settings options services vars = .ok plan) (hm : m ∈ plan.manifests) :
    (∃ name, m.name? = some name ∧
        (Name.isLabel name = true ↔ (m.kind = .volumeClaim → m.stem.toList.length ≤ 58))) ∧
      ∀ v ∈ m.document.labelValues, ∃ label, v = .str label ∧ Name.isLabel label = true := by
  -- the labels in one document all have the same value
  have hLabels : ∀ name, Name.isLabel name = true → LabelledBy name m.document →
      ∀ v ∈ m.document.labelValues, ∃ label, v = .str label ∧ Name.isLabel label = true :=
    fun name hName hLabelled v hv => ⟨name, hLabelled v hv, hName⟩
  obtain ⟨space, hPlanned⟩ := planned_planOf h
  rcases hPlanned.mem_manifests hm with rfl | ⟨e, he, hWorkload⟩
  · have hSpace := Name.isLabel_of_ofText hPlanned.space_eq
    refine ⟨⟨space, name?_ofNamespace space, ?_⟩,
      hLabels space hSpace (labelledBy_ofNamespace space)⟩
    simp [hSpace, Manifest.ofNamespace]
  · obtain ⟨w, hEq, hWorkload⟩ : ∃ w : Workload, w.name = Name.normalize e.1 ∧ m ∈ w.manifests :=
      ⟨_, rfl, hWorkload⟩
    have hName : Name.isLabel w.name = true := by
      have hNe : Name.normalize e.1 ≠ "" := hPlanned.names_ne e.1 (List.mem_map_of_mem he)
      exact Name.isLabel_of_ofText (Name.ofText_eq_ok_iff.2 ⟨hEq.symm, hEq ▸ hNe⟩)
    have hIdentity := Workload.identity_of_mem_manifests hWorkload
    rw [Manifest.identity, Prod.mk.injEq] at hIdentity
    refine ⟨⟨_, hIdentity.2, ?_⟩, hLabels _ hName (w.labelledBy_manifests m hWorkload)⟩
    rw [Workload.stem_of_mem_manifests hWorkload]
    exact Workload.isLabel_objectName_iff hName m.kind

/-! ### Names with room for the suffix, and without -/

/-- A service of the given name that keeps pages. -/
def pagesService (name : String) : Compose.Service :=
  { Compose.Service.empty name with
    image := some "nginx", volumes := [.short "pages:/usr/share/nginx/html"] }

/-- What its objects depend on. -/
def pagesWorkload (name : String) : Workload :=
  workloadOf .standard .standard [] name "default" (pagesService name)

/-- The claim for its pages. -/
def pagesClaim (name : String) : Manifest := ⟨.volumeClaim, name, (pagesWorkload name).volumeClaim⟩

/-- The plan of a project with nothing else. -/
def pagesPlan (name : String) : Plan :=
  ⟨.ofNamespace "default", [planService (pagesWorkload name)]⟩

section Pages

variable {name : String}

theorem planOf_pagesService (h : Name.ofText name = .ok name) :
    planOf .standard .standard [(name, pagesService name)] [] = .ok (pagesPlan name) := by
  have hSpace : Name.ofText ConvertOptions.standard.namespace = .ok "default" := by decide
  have hNames : Name.assign (OrderedMap.keys [(name, pagesService name)]) = .ok [(name, name)] := by
    obtain ⟨hNormal, hNe⟩ := Name.ofText_eq_ok_iff.1 h
    simp [Name.assign_eq_ok_iff, OrderedMap.keys, hNormal, hNe]
  exact planOf_eq_ok hSpace hNames

theorem pagesClaim_mem_manifests (name : String) :
    pagesClaim name ∈ (pagesWorkload name).manifests := by
  have hNeeds : (pagesWorkload name).classification.needsClaim = true := rfl
  rw [Workload.manifests_eq, Workload.volumeClaims, if_pos hNeeds]
  simp [pagesClaim, pagesWorkload, workloadOf]

theorem pagesClaim_mem_pagesPlan (name : String) :
    pagesClaim name ∈ (pagesPlan name).manifests := by
  have hClaim := pagesClaim_mem_manifests name
  simp [pagesPlan, Plan.manifests, planService, hClaim]

theorem name?_pagesClaim (name : String) :
    (pagesClaim name).name? = some (Workload.claimName name) := by
  have hIdentity := Workload.identity_of_mem_manifests (pagesClaim_mem_manifests name)
  rw [Manifest.identity, Prod.mk.injEq] at hIdentity
  exact hIdentity.2

end Pages

theorem isLabel_of_planOf_pagesService :
    planOf .standard .standard [("web", pagesService "web")] [] = .ok (pagesPlan "web") ∧
      pagesClaim "web" ∈ (pagesPlan "web").manifests ∧
      ∃ name, (pagesClaim "web").name? = some name ∧ Name.isLabel name = true := by
  have hName : Name.ofText "web" = .ok "web" := by decide
  have hPlan := planOf_pagesService hName
  have hMem := pagesClaim_mem_pagesPlan "web"
  obtain ⟨⟨name, hName, hIff⟩, -⟩ := isLabel_of_planOf hPlan hMem
  exact ⟨hPlan, hMem, name, hName, hIff.2 fun _ => by decide⟩

/-- A deployment has its name as a label of the pods and in the selector for them. -/
example : (pagesWorkload "web").deployment.labelValues = [.str "web", .str "web"] := by rfl

/-- The claim of a service with a name of sixty letters has no label as its name. -/
theorem not_isLabel_pagesClaim :
    let long := String.ofList (List.replicate 60 'a')
    planOf .standard .standard [(long, pagesService long)] [] = .ok (pagesPlan long) ∧
      pagesClaim long ∈ (pagesPlan long).manifests ∧
      ∃ name, (pagesClaim long).name? = some name ∧ Name.isLabel name = false := by
  intro long
  have hLong : Name.isLabel long = true := by decide
  have hLength : ¬ long.toList.length ≤ 58 := by decide
  refine ⟨planOf_pagesService (by decide), pagesClaim_mem_pagesPlan long, _,
    name?_pagesClaim long, ?_⟩
  rw [← Bool.not_eq_true, Name.isLabel_claimName_iff hLong]
  exact hLength

end KubeCompose
