import KubeCompose.Proofs.Distinct
import KubeCompose.Proofs.Rounds
import Mathlib.Data.List.Sort

/-!
# Services that do not depend on one another

What is planned for a service depends on the service alone, and whether a project can be planned on
the set of its services. So their order does not matter, neither for the plan nor for the files that
a conversion leaves, and services that are left out change nothing for the others.
-/

namespace KubeCompose

open Compose (Service)
open OrderedMap (keys)
open KubeCompose.Path (child)
open Workspace (Filled Plain SameOutside)

/-! ### Plans -/

section Plans

variable {settings : Settings} {options : ConvertOptions}
  {services others : OrderedMap String Service} {vars : DotEnv} {plan other : Plan} {space : String}

/-- The order of the services does not matter for whether there is a plan. -/
theorem exists_planOf_of_perm (hPerm : others.Perm services)
    (h : ∃ plan, planOf settings options services vars = .ok plan) :
    ∃ plan, planOf settings options others vars = .ok plan := by
  have hKeys : (keys others).Perm (keys services) := hPerm.map Prod.fst
  obtain ⟨hSpace, hNames, hDistinct⟩ := exists_planOf_iff.1 h
  exact exists_planOf_iff.2 ⟨hSpace, fun key hKey => hNames key (hKeys.subset hKey),
    (hKeys.map Name.normalize).nodup_iff.2 hDistinct⟩

/-- A part of the services can be planned when all of them can. -/
theorem exists_planOf_of_sublist (hPart : others.Sublist services)
    (h : ∃ plan, planOf settings options services vars = .ok plan) :
    ∃ plan, planOf settings options others vars = .ok plan := by
  have hKeys : (keys others).Sublist (keys services) := hPart.map Prod.fst
  obtain ⟨hSpace, hNames, hDistinct⟩ := exists_planOf_iff.1 h
  exact exists_planOf_iff.2 ⟨hSpace, fun key hKey => hNames key (hKeys.subset hKey),
    (hKeys.map Name.normalize).nodup hDistinct⟩

/-- One function says what is planned for a service, whatever other services there are. -/
theorem exists_planned (hPlan : planOf settings options services vars = .ok plan) :
    ∃ planned : String × Service → ServiceReport × List Manifest,
      ∀ others other, planOf settings options others vars = .ok other →
        other.namespace = plan.namespace ∧ other.services = others.map planned := by
  obtain ⟨space, hPlanned⟩ := planned_planOf hPlan
  refine ⟨fun e => planService (workloadOf settings options vars (Name.normalize e.1) space e.2),
    fun others other hOther => ?_⟩
  obtain ⟨space', hPlanned'⟩ := planned_planOf hOther
  obtain rfl := Except.ok.inj (hPlanned.space_eq.symm.trans hPlanned'.space_eq)
  exact ⟨by rw [hPlanned.namespace_eq, hPlanned'.namespace_eq], hPlanned'.services_eq⟩

/-- In another order of the services the same manifests are planned. -/
theorem manifests_perm (hPlan : planOf settings options services vars = .ok plan)
    (hOther : planOf settings options others vars = .ok other) (hPerm : others.Perm services) :
    other.manifests.Perm plan.manifests := by
  obtain ⟨planned, hAll⟩ := exists_planned hPlan
  obtain ⟨-, hServices⟩ := hAll services plan hPlan
  obtain ⟨hSpace, hServices'⟩ := hAll others other hOther
  rw [Plan.manifests, Plan.manifests, hSpace, hServices, hServices']
  exact ((hPerm.map planned).flatMap_right _).cons _

end Plans

/-! ### Workspaces that are alike -/

namespace Workspace

/-- The same stands at every location of two workspaces. -/
structure Alike (w v : Workspace) : Prop where
  here : v.here = w.here
  look : ∀ k, v.files.look? k = w.files.look? k

variable {w u v u' v' : Workspace} {directory : String} {l : Location}
  {files others : OrderedMap String Entry}

theorem Alike.refl (w : Workspace) : Alike w w := ⟨rfl, fun _ => rfl⟩

theorem Alike.folder_eq (h : Alike u u') : u'.folder l = u.folder l := by
  funext name
  rw [← look?_folder, ← look?_folder, h.look]

/-- What is alike stays so when one directory of both gets the same folder. -/
theorem Alike.of_folder (h : Alike u u') (hSame : SameOutside l u v) (hSame' : SameOutside l u' v')
    (hFolder : v'.folder l = v.folder l) : Alike v v' where
  here := by rw [hSame'.here, hSame.here, h.here]
  look k := by
    by_cases hChild : ∃ name, k = l ++ [name]
    · obtain ⟨name, rfl⟩ := hChild
      rw [look?_folder, look?_folder, hFolder]
    · have hNot : ∀ name, k ≠ l ++ [name] := fun name hEq => hChild ⟨name, hEq⟩
      rw [hSame'.look k hNot, hSame.look k hNot, h.look]

/-- A directory that is filled with the same files in another order. -/
theorem Filled.alike (h : Filled w directory l files v) (h' : Filled w directory l others v')
    (hPerm : others.Perm files) : Alike v v' := by
  refine (Alike.refl w).of_folder h.same h'.same ?_
  have hEntries : (v'.entries l).Perm (v.entries l) := h'.perm.trans (hPerm.trans h.perm.symm)
  have hFind : ∀ name entry, v'.folder l name = some entry ↔ v.folder l name = some entry := by
    intro name entry
    constructor
    · exact fun hFound => OrderedMap.find?_of_mem h.distinct_entries
        (hEntries.subset (OrderedMap.mem_of_find? hFound))
    · exact fun hFound => OrderedMap.find?_of_mem h'.distinct_entries
        (hEntries.symm.subset (OrderedMap.mem_of_find? hFound))
  exact funext fun name => Option.ext (hFind name)

end Workspace

namespace Manifest

variable {u u' : Workspace} {directory : String} {l : Location}

/-- The manifests of a plain directory are known from its folder. -/
theorem manifestNames_eq_of_folder (h : u.Plain directory l) (h' : u'.Plain directory l)
    (hFolder : u'.folder l = u.folder l) :
    manifestNames u' directory = manifestNames u directory := by
  refine (sorted_manifestNames h').eq_of_mem_iff (sorted_manifestNames h) fun name => ?_
  rw [mem_manifestNames h', mem_manifestNames h, hFolder]

/-- A revision leaves workspaces alike. -/
theorem alike_run (h : u.Plain directory l) (h' : u'.Plain directory l)
    (hAlike : Workspace.Alike u u') (o : Revision) :
    Workspace.Alike (o.run directory u).1 (o.run directory u').1 := by
  have hFirst := Revision.steps_between h o
  have hFirst' := Revision.steps_between h' o
  have hMiddle : (o.between directory u').folder l = (o.between directory u).folder l := by
    rw [hFirst'.folder, hFirst.folder, hAlike.folder_eq,
      manifestNames_eq_of_folder h h' hAlike.folder_eq]
  obtain ⟨v, r, hRun, hSecond, -⟩ := Revision.run_eq h o
  obtain ⟨v', r', hRun', hSecond', -⟩ := Revision.run_eq h' o
  rw [hRun, hRun']
  refine hAlike.of_folder (hFirst.same.trans hSecond.same) (hFirst'.same.trans hSecond'.same) ?_
  rw [hSecond'.folder, hSecond.folder, hMiddle,
    manifestNames_eq_of_folder hFirst.plain hFirst'.plain hMiddle]

end Manifest

/-! ### Conversions -/

section Conversions

variable {settings : Settings} {options : ConvertOptions} {p : Compose.Project}
  {others : OrderedMap String Service} {vars : DotEnv} {plan other : Plan}
  {space directory : String} {l : Location} {w u : Workspace} {copy : OrderedMap String Entry}

/-- An empty directory to which planned manifests have been added is plain. -/
theorem plain_of_filled (hPlanned : Planned settings options p.services vars space plan)
    (hShort : ∀ m ∈ plan.manifests, (child directory m.fileName).utf8ByteSize ≤ Path.lengthLimit)
    (hCopied : Copied p w copy)
    (hFilled : Filled w directory l (plan.manifests.map Manifest.entry ++ copy) u) :
    u.Plain directory l := by
  have hNonempty : directory ≠ "" := (Workspace.leadsTo_iff.1 hFilled.leadsTo).2.1
  have hAll : ∀ e ∈ plan.manifests.map Manifest.entry ++ copy,
      Workspace.Fits directory e.1 ∧ e.2.IsFile := by
    refine List.forall_mem_append.2 ⟨List.forall_mem_map.2 fun m hm => ?_, fun e he => ?_⟩
    · exact ⟨⟨Manifest.isName_fileName (hPlanned.ready m hm).stem, hShort m hm⟩, _, _, rfl⟩
    · refine ⟨?_, hCopied.isFile_of_mem he⟩
      rw [hCopied.of_mem (OrderedMap.mem_keys_of_mem he)]
      exact ⟨isName_variablesName, utf8ByteSize_variablesName hPlanned hNonempty hShort⟩
  have hMem : ∀ name entry, u.folder l name = some entry →
      (name, entry) ∈ plan.manifests.map Manifest.entry ++ copy := fun name entry hFind =>
    hFilled.perm.subset (OrderedMap.mem_of_find? hFind)
  refine ⟨hFilled.leadsTo, hFilled.distinct_entries, fun name entry hFind => ?_,
    fun name target hLink => ?_⟩
  · exact (hAll _ (hMem name entry hFind)).1
  · exact FileTree.not_isFile_link _ (hAll _ (hMem name _ hLink)).2

/-- A project that cannot be planned is not converted. -/
theorem convert_of_planOf_error {e : Name.Error} (hVars : p.dotEnv w = .ok vars)
    (hPlan : planOf settings options p.services vars = .error e) (directory : String) :
    convert settings options p directory w = (.error (.name e), w) := by
  rw [convert, Action.bind_of_ok (Action.ask_of_ok (by rw [hVars]; rfl))]
  exact Action.bind_of_error (by rw [Action.ask, hPlan]; rfl)

variable (hEmpty : w.Empty directory l) (hVars : p.dotEnv w = .ok vars)
  (hPerm : others.Perm p.services)
include hEmpty hVars hPerm

/-- Into an empty directory a project is converted as it is with its services in another order. -/
theorem alike_convert (hPlan : planOf settings options p.services vars = .ok plan)
    (hOther : planOf settings options others vars = .ok other)
    (hShort : ∀ m ∈ plan.manifests, (child directory m.fileName).utf8ByteSize ≤ Path.lengthLimit) :
    ∃ report report' v v', convert settings options p directory w = (.ok report, v) ∧
      convert settings options { p with services := others } directory w = (.ok report', v') ∧
      Workspace.Alike v v' := by
  have hManifests := manifests_perm hPlan hOther hPerm
  have hShort' : ∀ m ∈ other.manifests,
      (child directory m.fileName).utf8ByteSize ≤ Path.lengthLimit := fun m hm =>
    hShort m (hManifests.subset hm)
  obtain ⟨report, _, copy, w₁, u, hCopy, hCopied, hStart, hFilled, hConvert⟩ :=
    convert_into_empty hEmpty hVars hPlan hShort
  obtain ⟨report', _, copy', w₁', u', hCopy', hCopied', hStart', hFilled', hConvert'⟩ :=
    convert_into_empty (p := { p with services := others }) hEmpty hVars hOther hShort'
  -- the variables are copied in the same way, as the services do not matter for them
  obtain ⟨-, rfl⟩ := Prod.mk.inj (hCopy.symm.trans hCopy')
  have hCopies : copy'.Perm copy := hStart'.perm.symm.trans hStart.perm
  have hAlike : Workspace.Alike u u' :=
    hFilled.alike hFilled' ((hManifests.map Manifest.entry).append hCopies)
  obtain ⟨space, hPlanned⟩ := planned_planOf hPlan
  obtain ⟨space', hPlanned'⟩ := planned_planOf hOther
  have hSpace : other.namespace = plan.namespace := by
    obtain ⟨planned, hAll⟩ := exists_planned hPlan
    exact (hAll others other hOther).1
  refine ⟨report, report', _, _, hConvert, hConvert', ?_⟩
  rw [hSpace]
  exact Manifest.alike_run (plain_of_filled hPlanned hShort hCopied hFilled)
    (plain_of_filled (p := { p with services := others }) hPlanned' hShort' hCopied' hFilled')
    hAlike _

end Conversions

/-- What is planned for a service does not depend on the others: the order of the services does not
matter for whether there is a plan, each service has the same report and the same manifests in any
order, and services that are left out change nothing for those that stay. Into an empty directory
whose paths are not too long, a project and one with its services in another order are converted
exactly when they can be planned, and the same stands everywhere in the end. -/
theorem services_independent {settings : Settings} {options : ConvertOptions}
    {p : Compose.Project} {others : OrderedMap String Service} {vars : DotEnv}
    (hPerm : others.Perm p.services) :
    ((∃ plan, planOf settings options p.services vars = .ok plan) ↔
        ∃ other, planOf settings options others vars = .ok other) ∧
      (∀ plan, planOf settings options p.services vars = .ok plan →
        ∃ planned : String × Service → ServiceReport × List Manifest,
          plan.services = p.services.map planned ∧
            (∀ other, planOf settings options others vars = .ok other →
              other.namespace = plan.namespace ∧ other.services = others.map planned) ∧
            ∀ kept, kept.Sublist p.services →
              ∃ part, planOf settings options kept vars = .ok part ∧
                part.namespace = plan.namespace ∧ part.services = kept.map planned) ∧
      ∀ (w : Workspace) (directory : String), p.dotEnv w = .ok vars →
        w.isDirectory directory = true → w.list directory = [] →
        (∀ plan, planOf settings options p.services vars = .ok plan →
          ∀ m ∈ plan.manifests, (child directory m.fileName).utf8ByteSize ≤ Path.lengthLimit) →
        ∃ result result' v v',
          convert settings options p directory w = (result, v) ∧
            convert settings options { p with services := others } directory w = (result', v') ∧
            Workspace.Alike v v' ∧
            ((∃ report, result = .ok report) ↔
              ∃ plan, planOf settings options p.services vars = .ok plan) ∧
            ((∃ report, result' = .ok report) ↔
              ∃ other, planOf settings options others vars = .ok other) := by
  refine ⟨⟨exists_planOf_of_perm hPerm, exists_planOf_of_perm hPerm.symm⟩, fun plan hPlan => ?_,
    fun w directory hVars hThere hNone hShort => ?_⟩
  · obtain ⟨planned, hAll⟩ := exists_planned hPlan
    refine ⟨planned, (hAll _ plan hPlan).2, hAll others, fun kept hPart => ?_⟩
    obtain ⟨part, hKept⟩ := exists_planOf_of_sublist hPart ⟨plan, hPlan⟩
    exact ⟨part, hKept, hAll kept part hKept⟩
  · obtain ⟨l, hEmpty⟩ := Workspace.exists_empty hThere hNone
    cases hPlan : planOf settings options p.services vars with
    | ok plan =>
      obtain ⟨other, hOther⟩ := exists_planOf_of_perm hPerm ⟨plan, hPlan⟩
      obtain ⟨report, report', v, v', hConvert, hConvert', hAlike⟩ :=
        alike_convert hEmpty hVars hPerm hPlan hOther (hShort plan hPlan)
      exact ⟨.ok report, .ok report', v, v', hConvert, hConvert', hAlike,
        iff_of_true ⟨report, rfl⟩ ⟨plan, rfl⟩, iff_of_true ⟨report', rfl⟩ ⟨other, hOther⟩⟩
    | error e =>
      obtain ⟨e', hOther⟩ : ∃ e', planOf settings options others vars = .error e' := by
        cases hOther : planOf settings options others vars with
        | error e' => exact ⟨e', rfl⟩
        | ok other =>
          obtain ⟨plan, hSome⟩ := exists_planOf_of_perm hPerm.symm ⟨other, hOther⟩
          exact absurd (hPlan.symm.trans hSome) (by simp)
      exact ⟨_, _, w, w, convert_of_planOf_error hVars hPlan directory,
        convert_of_planOf_error (p := { p with services := others }) hVars hOther directory,
        ⟨rfl, fun _ => rfl⟩, by simp, by simp [hOther]⟩

/-! ### A service beside the web server -/

/-- The same service under another name. -/
def sideService : Service := { Service.empty "a" with image := some "nginx" }

def pairServices : OrderedMap String Service := [("a", sideService), ("web", nginx)]

def pairProject : Compose.Project := ⟨"docker-compose.yml", pairServices⟩

/-- The pair in the other order. -/
def reversedProject : Compose.Project := { pairProject with services := pairServices.reverse }

/-- What is planned for a service of the pair. -/
def pairPlanned (name : String) (s : Service) : ServiceReport × List Manifest :=
  planService (workloadOf .standard .standard [] name "default" s)

def pairPlan : Plan :=
  ⟨.ofNamespace "default", [pairPlanned "a" sideService, pairPlanned "web" nginx]⟩

def reversedPlan : Plan :=
  ⟨.ofNamespace "default", [pairPlanned "web" nginx, pairPlanned "a" sideService]⟩

theorem planOf_pair : planOf .standard .standard pairProject.services [] = .ok pairPlan := by
  have hSpace : Name.ofText ConvertOptions.standard.namespace = .ok "default" := by decide
  have hNames : Name.assign (keys pairProject.services) = .ok [("a", "a"), ("web", "web")] := by
    decide
  exact planOf_eq_ok hSpace hNames

theorem planOf_reversed :
    planOf .standard .standard reversedProject.services [] = .ok reversedPlan := by
  have hSpace : Name.ofText ConvertOptions.standard.namespace = .ok "default" := by decide
  have hNames : Name.assign (keys reversedProject.services) =
      .ok [("web", "web"), ("a", "a")] := by
    decide
  exact planOf_eq_ok hSpace hNames

/-- The two services are converted in both orders, and the same stands everywhere in the end. -/
theorem services_independent_pair :
    reversedProject.services.Perm pairProject.services ∧
      (∃ planned : String × Service → ServiceReport × List Manifest,
        pairPlan.services = pairServices.map planned ∧
          reversedPlan.services = pairServices.reverse.map planned ∧
          ∃ part, planOf .standard .standard [("web", nginx)] [] = .ok part ∧
            part.services = [planned ("web", nginx)]) ∧
      ∃ report report' v v',
        convert .standard .standard pairProject (outPath 0) homeWithOut = (.ok report, v) ∧
          convert .standard .standard reversedProject (outPath 0) homeWithOut = (.ok report', v') ∧
          Workspace.Alike v v' := by
  have hPerm : reversedProject.services.Perm pairProject.services := pairServices.reverse_perm
  obtain ⟨-, hPlans, hConversions⟩ :=
    @services_independent .standard .standard pairProject reversedProject.services [] hPerm
  have hEmpty := empty_outPath 0 (by decide)
  refine ⟨hPerm, ?_, ?_⟩
  · obtain ⟨planned, hAll, hOther, hParts⟩ := hPlans pairPlan planOf_pair
    have hKept : [("web", nginx)].Sublist pairProject.services := by
      simp [pairProject, pairServices]
    obtain ⟨part, hPart, -, hServices⟩ := hParts [("web", nginx)] hKept
    exact ⟨planned, hAll, (hOther reversedPlan planOf_reversed).2, part, hPart, hServices⟩
  · have hShort : ∀ m ∈ pairPlan.manifests,
        (child (outPath 0) m.fileName).utf8ByteSize ≤ Path.lengthLimit := by
      decide +kernel
    obtain ⟨result, result', v, v', hConvert, hConvert', hAlike, hOk, hOk'⟩ :=
      hConversions homeWithOut (outPath 0) (dotEnv_homeWithOut (by decide))
        (Workspace.isDirectory_of_leadsTo hEmpty.leads) hEmpty.list_eq_nil fun plan hPlan => by
          obtain rfl := Except.ok.inj (planOf_pair.symm.trans hPlan)
          exact hShort
    obtain ⟨report, rfl⟩ := hOk.2 ⟨pairPlan, planOf_pair⟩
    obtain ⟨report', rfl⟩ := hOk'.2 ⟨reversedPlan, planOf_reversed⟩
    exact ⟨report, report', v, v', hConvert, hConvert', hAlike⟩

/-- Behind so many slashes the longer names cannot be written, and a conversion leaves what comes
before them: the files of the other service, when it comes first. -/
theorem not_alike_of_slashes :
    reversedProject.services.Perm pairProject.services ∧
      planOf .standard .standard pairProject.services [] = .ok pairPlan ∧
      pairProject.dotEnv homeWithOut = .ok [] ∧ homeWithOut.isDirectory (outPath 4075) = true ∧
      homeWithOut.list (outPath 4075) = [] ∧
      ∃ e e' v v',
        convert .standard .standard pairProject (outPath 4075) homeWithOut = (.error e, v) ∧
        convert .standard .standard reversedProject (outPath 4075) homeWithOut = (.error e', v') ∧
        "a-deployment.yaml" ∈ keys (v.list (outPath 4075)) ∧
        "a-deployment.yaml" ∉ keys (v'.list (outPath 4075)) := by
  have hEmpty := empty_outPath 4075 (by decide)
  have hSplit : ∃ set m rest, pairPlan.manifests = set ++ m :: rest ∧
      set.map (·.fileName) = ["namespace.yaml", "a-deployment.yaml", "a-service.yaml"] ∧
      m.fileName = "web-deployment.yaml" := ⟨[_, _, _], _, [_], rfl, rfl, rfl⟩
  have hSplit' : ∃ set m rest, reversedPlan.manifests = set ++ m :: rest ∧
      set.map (·.fileName) = ["namespace.yaml"] ∧ m.fileName = "web-deployment.yaml" :=
    ⟨[_], _, [_, _, _], rfl, rfl, rfl⟩
  have hFits : ∀ (set : List Manifest) (names : List String), set.map (·.fileName) = names →
      (∀ name ∈ names, 3 + 4075 + name.utf8ByteSize ≤ Path.lengthLimit) →
      ∀ n ∈ set, 3 + 4075 + n.fileName.utf8ByteSize ≤ Path.lengthLimit := by
    rintro set names rfl hNames n hn
    exact hNames _ (List.mem_map_of_mem hn)
  have hLong : ∀ m : Manifest, m.fileName = "web-deployment.yaml" →
      Path.lengthLimit < 3 + 4075 + m.fileName.utf8ByteSize := by
    intro m hName
    rw [hName]
    decide
  obtain ⟨set, m, rest, hManifests, hSet, hName⟩ := hSplit
  obtain ⟨set', m', rest', hManifests', hSet', hName'⟩ := hSplit'
  have hPath : pairProject.variablesPath = Compose.variablesName := by decide
  have hPath' : reversedProject.variablesPath = Compose.variablesName := by decide
  obtain ⟨e, v, hConvert, hFiles⟩ := convert_stops_behind_slashes hPath planOf_pair hManifests
    (by decide) (by decide) (hFits set _ hSet (by decide)) (hLong m hName)
  obtain ⟨e', v', hConvert', hFiles'⟩ := convert_stops_behind_slashes hPath' planOf_reversed
    hManifests' (by decide) (by decide) (hFits set' _ hSet' (by decide)) (hLong m' hName')
  refine ⟨pairServices.reverse_perm, planOf_pair, dotEnv_homeWithOut (by decide),
    Workspace.isDirectory_of_leadsTo hEmpty.leads, hEmpty.list_eq_nil, e, e', v, v', hConvert,
    hConvert', ?_, ?_⟩
  · rw [hFiles.mem_iff, hSet]
    decide
  · rw [hFiles'.mem_iff, hSet']
    decide

end KubeCompose
