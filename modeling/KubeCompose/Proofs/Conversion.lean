import KubeCompose.Proofs.Preparation
import KubeCompose.Proofs.Revision
import KubeCompose.Proofs.RoundTrip.Simple

/-!
# What a conversion leaves

A conversion writes the manifests of its plan into an empty directory and revises them there. The
main statement is that the directory then holds the settled manifests and the copy of the variables,
and nothing else, and that the revision had nothing to repair.
-/

namespace KubeCompose

open Compose (Project Service)
open OrderedMap (keys)
open KubeCompose.Path (child)
open Workspace (Filled SameOutside)

/-! ### Writing the plan -/

variable {settings : Settings} {options : ConvertOptions} {p : Project} {vars : DotEnv}
  {plan : Plan} {space directory : String} {l : Location} {w w₁ : Workspace} {m : Manifest}
  {kept : OrderedMap String Entry} {set : List Manifest}

/-- The document of a manifest that is ready is written as its text. -/
theorem Manifest.writeTo_eq_ok (hReady : m.Ready options space)
    (hWrite : w.write (child directory m.fileName) m.document.render.toUTF8 = .ok w₁) :
    m.writeTo directory w = (.ok (child directory m.fileName), w₁) := by
  have hText : m.document.write = .ok m.document.render :=
    Yaml.write_eq_ok_iff.2 ⟨hReady.writable, rfl⟩
  rw [writeTo, Action.bind_of_ok (Action.ask_of_ok (by rw [hText]; rfl)),
    Action.bind_of_ok (Action.change_of_ok (by rw [hWrite]; rfl))]
  rfl

/-- What is written under a new name is added to the directory. -/
theorem Manifest.writeTo_new (hReady : m.Ready options space)
    (hShort : (child directory m.fileName).utf8ByteSize ≤ Path.lengthLimit)
    (hFilled : Filled w₁ directory l kept w) (hNew : m.fileName ∉ keys kept) :
    ∃ w', m.writeTo directory w = (.ok (child directory m.fileName), w') ∧
      Filled w₁ directory l (m.entry :: kept) w' := by
  have hReaches := Workspace.reaches_child hFilled.leadsTo (isName_fileName hReady.stem) hShort
  have hWrite := Workspace.write_new hReaches (hFilled.find?_new hNew) m.document.render.toUTF8
  exact ⟨_, writeTo_eq_ok hReady hWrite, hFilled.put_new hNew _⟩

/-- Manifests whose slots differ are written beside what is there. -/
theorem Manifest.mapM_writeTo (hReady : ∀ m ∈ set, m.Ready options space)
    (hShort : ∀ m ∈ set, (child directory m.fileName).utf8ByteSize ≤ Path.lengthLimit)
    (hApart : (set.map slot).Nodup) (hFilled : Filled w₁ directory l kept w)
    (hNew : ∀ m ∈ set, m.fileName ∉ keys kept) :
    ∃ written w',
      (set.mapM fun m => m.writeTo directory : Action ConversionError (List String)) w =
        (.ok written, w') ∧
      Filled w₁ directory l (set.map entry ++ kept) w' := by
  induction set generalizing kept w with
  | nil => exact ⟨[], w, rfl, hFilled⟩
  | cons m set ih =>
    obtain ⟨hReadyHead, hReadyRest⟩ := List.forall_mem_cons.1 hReady
    obtain ⟨hShortHead, hShortRest⟩ := List.forall_mem_cons.1 hShort
    obtain ⟨hNewHead, hNewRest⟩ := List.forall_mem_cons.1 hNew
    rw [List.map_cons, List.nodup_cons] at hApart
    obtain ⟨v, hWrite, hHead⟩ := writeTo_new hReadyHead hShortHead hFilled hNewHead
    have hOther : ∀ n ∈ set, n.fileName ∉ keys (m.entry :: kept) := by
      intro n hn
      simp only [keys, List.map_cons, List.mem_cons, not_or]
      refine ⟨fun hEq => hApart.1 ?_, hNewRest n hn⟩
      rw [← slot_eq_of_fileName hEq]
      exact List.mem_map_of_mem hn
    obtain ⟨written, w', hRest, hAll⟩ := ih hReadyRest hShortRest hApart.2 hHead hOther
    refine ⟨child directory m.fileName :: written, w', ?_, hAll.of_perm List.perm_middle⟩
    rw [List.mapM_cons, Action.bind_of_ok hWrite, Action.bind_of_ok hRest]
    rfl

/-! ### Copying the variables -/

theorem isName_variablesName : Path.IsName Compose.variablesName where
  noSlash := by decide
  noNul := by decide
  notIdle := by decide
  notUp := by decide
  short := by decide

/-- The variables are no manifest. -/
theorem isManifestName_variablesName (hDirectory : directory ≠ "") :
    Manifest.isManifestName (child directory Compose.variablesName) = false := by
  obtain ⟨first, middle, hBase⟩ :=
    List.exists_cons_of_ne_nil (Path.pieces_ne_nil (Path.base directory))
  have hCut : Text.cutAtLast? '.' Compose.variablesName.toList = some ([], "env".toList) := by
    decide
  have hExtension : Path.extension? (child directory Compose.variablesName) = none := by
    rw [Path.extension?, Path.fileName?_child hDirectory isName_variablesName hBase,
      Option.bind_some, hCut]
  rw [Manifest.isManifestName, hExtension]
  rfl

theorem fileName_ne_variablesName (m : Manifest) : m.fileName ≠ Compose.variablesName := by
  intro hEq
  have hLast : 'y' ∈ m.fileName.toList := by
    rw [Manifest.fileName_eq_title]
    simp
  rw [hEq] at hLast
  exact absurd hLast (by decide)

/-- The copy of the variables of a project, when there are any. -/
structure Copied (p : Project) (w₁ : Workspace) (copy : OrderedMap String Entry) : Prop where
  present : w₁.isFile p.variablesPath = true → ∃ bytes executable,
    w₁.entryAt p.variablesPath = .ok (.file bytes executable) ∧
      copy = [(Compose.variablesName, .file bytes executable)]
  absent : w₁.isFile p.variablesPath = false → copy = []

theorem copyVariables_start (p : Project)
    (hShort : (child directory Compose.variablesName).utf8ByteSize ≤ Path.lengthLimit)
    (hFilled : Filled w directory l kept w) (hNew : Compose.variablesName ∉ keys kept) :
    ∃ copied copy w', copyVariables p directory w = (.ok copied, w') ∧ Copied p w copy ∧
      Filled w directory l (copy ++ kept) w' := by
  by_cases hFile : w.isFile p.variablesPath = true
  · have hReaches := Workspace.reaches_child hFilled.leadsTo isName_variablesName hShort
    obtain ⟨v, bytes, executable, hCopy, hSource, hSame, hEntries⟩ :=
      Workspace.copy_new hReaches (hFilled.find?_new hNew) hFile
    have hPut := hFilled.put_new hNew (.file bytes executable)
    refine ⟨some (child directory Compose.variablesName),
      [(Compose.variablesName, .file bytes executable)], v, ?_, ⟨fun _ => ⟨_, _, hSource, rfl⟩, ?_⟩,
      hPut.leads, hPut.base, hSame, ?_, hPut.distinct⟩
    · rw [copyVariables, if_pos hFile]
      simp only [hCopy]
    · simp [hFile]
    · rw [hEntries, ← Workspace.entries_put]
      exact hPut.perm
  · refine ⟨none, [], w, ?_, ⟨fun h => absurd h hFile, fun _ => rfl⟩, hFilled⟩
    rw [copyVariables, if_neg hFile]

theorem Copied.names {kept : OrderedMap String Entry} (h : Copied p w₁ kept) :
    keys kept = if w₁.isFile p.variablesPath then [Compose.variablesName] else [] := by
  split
  · rename_i hFile
    obtain ⟨bytes, executable, -, hKept⟩ := h.present hFile
    rw [hKept]
    rfl
  · rename_i hFile
    rw [h.absent (by simpa using hFile)]
    rfl

theorem Copied.of_mem (h : Copied p w₁ kept) {name : String} (hName : name ∈ keys kept) :
    name = Compose.variablesName := by
  rw [h.names] at hName
  split at hName
  · exact List.mem_singleton.1 hName
  · simp at hName

theorem Copied.isNoManifest (h : Copied p w₁ kept) (hNonempty : directory ≠ "") :
    ∀ e ∈ kept, Manifest.IsNoManifest directory e := by
  refine fun e he => .inl ?_
  rw [h.of_mem (OrderedMap.mem_keys_of_mem he)]
  exact isManifestName_variablesName hNonempty

theorem Copied.isFile_of_mem (h : Copied p w₁ kept) {e : String × Entry} (he : e ∈ kept) :
    ∃ bytes executable, e.2 = .file bytes executable := by
  cases hFile : w₁.isFile p.variablesPath with
  | true =>
    obtain ⟨bytes, executable, -, hKept⟩ := h.present hFile
    rw [hKept, List.mem_singleton] at he
    exact ⟨bytes, executable, by rw [he]⟩
  | false =>
    rw [h.absent hFile] at he
    simp at he

/-- The path of the copy is not too long when those of the manifests are not. -/
theorem utf8ByteSize_variablesName {services : OrderedMap String Compose.Service}
    (hPlanned : Planned settings options services vars space plan) (hNonempty : directory ≠ "")
    (hShort : ∀ m ∈ plan.manifests, (child directory m.fileName).utf8ByteSize ≤ Path.lengthLimit) :
    (child directory Compose.variablesName).utf8ByteSize ≤ Path.lengthLimit := by
  have hMem : plan.namespace ∈ plan.manifests := List.mem_cons_self ..
  have hName := Manifest.isName_fileName (hPlanned.ready _ hMem).stem
  have hSize : Compose.variablesName.utf8ByteSize ≤ plan.namespace.fileName.utf8ByteSize := by
    have hLess : Compose.variablesName.utf8ByteSize ≤ "namespace.yaml".utf8ByteSize := by decide
    rw [hPlanned.namespace_eq]
    exact hLess
  have hChild := Path.utf8ByteSize_child_le hNonempty hName isName_variablesName hSize
  exact Nat.le_trans hChild (hShort _ hMem)

/-! ### Conversions -/

/-- What is left of the plan of a project in a directory that was empty in `w₁`: the copy of the
variables and the settled manifests, each in its file, and nothing else. Nothing outside the
directory has changed. -/
structure Converted (options : ConvertOptions) (p : Project) (plan : Plan) (directory : String)
    (w₁ w₂ : Workspace) : Prop where
  names :
    ((w₂.list directory).map (·.1)).Perm
      ((if w₁.isFile p.variablesPath then [Compose.variablesName] else []) ++
        plan.manifests.map fun m => (options.settled m).fileName)
  distinct : ((w₂.list directory).map (·.1)).Nodup
  files : ∀ e ∈ w₂.list directory, ∃ bytes executable, e.2 = .file bytes executable
  copied :
    w₁.isFile p.variablesPath = true →
      w₂.read (child directory Compose.variablesName) = w₁.read p.variablesPath
  documents :
    ∀ m ∈ plan.manifests, ∃ text,
      w₂.readText (child directory (options.settled m).fileName) = .ok text ∧
        Manifest.parseDocuments text = .ok [(options.settled m).document]
  outside : ∃ l, w₂.LeadsTo directory l ∧ SameOutside l w₁ w₂

section Filled

variable (hPlanned : Planned settings options p.services vars space plan)
  (hShort : ∀ m ∈ plan.manifests, (child directory m.fileName).utf8ByteSize ≤ Path.lengthLimit)
  (hFilled : Filled w₁ directory l
    ((plan.manifests.map fun m => (options.settled m).entry) ++ kept) w)
include hPlanned hShort hFilled

/-- The copy of the variables is read as the variables. -/
theorem read_variables_of_filled (hCopied : Copied p w₁ kept)
    (hFile : w₁.isFile p.variablesPath = true) :
    w.read (child directory Compose.variablesName) = w₁.read p.variablesPath := by
  have hNonempty : directory ≠ "" := (Workspace.leadsTo_iff.1 hFilled.leadsTo).2.1
  have hVariables := utf8ByteSize_variablesName hPlanned hNonempty hShort
  have hReaches := Workspace.reaches_child hFilled.leadsTo isName_variablesName hVariables
  obtain ⟨bytes, executable, hSource, hKept⟩ := hCopied.present hFile
  have hMem : (Compose.variablesName, Entry.file bytes executable) ∈
      (plan.manifests.map fun m => (options.settled m).entry) ++ kept := by
    rw [hKept]
    exact List.mem_append_right _ (List.mem_singleton_self _)
  rw [Workspace.read_file hReaches (hFilled.find?_of_mem hMem), Workspace.read, hSource]

/-- The file of a settled manifest has the text of its document. -/
theorem readText_of_filled (hm : m ∈ plan.manifests) :
    w.readText (child directory (options.settled m).fileName) =
      .ok (options.settled m).document.render := by
  have hNonempty : directory ≠ "" := (Workspace.leadsTo_iff.1 hFilled.leadsTo).2.1
  have hReady := hPlanned.ready m hm
  have hName := Manifest.isName_fileName hReady.stem
  have hSettled : Path.IsName (options.settled m).fileName :=
    Manifest.isName_fileName (by rw [options.stem_settled, hReady.stem])
  have hChild := Path.utf8ByteSize_child_le hNonempty hName hSettled
    (options.utf8ByteSize_fileName_settled m)
  have hReaches := Workspace.reaches_child hFilled.leadsTo hSettled
    (Nat.le_trans hChild (hShort m hm))
  have hMem : (options.settled m).entry ∈
      (plan.manifests.map fun m => (options.settled m).entry) ++ kept :=
    List.mem_append_left _ (List.mem_map_of_mem hm)
  exact Workspace.readText_of_read (Workspace.read_file hReaches (hFilled.find?_of_mem hMem))

/-- A directory that is filled with settled manifests and the copy of the variables. -/
theorem converted_of_filled (hCopied : Copied p w₁ kept)
    (hReads : ∀ m ∈ plan.manifests, (options.settled m).document.ReadsBack) :
    Converted options p plan directory w₁ w where
  names := by
    have hNames : keys ((plan.manifests.map fun m => (options.settled m).entry) ++ kept) =
        (plan.manifests.map fun m => (options.settled m).fileName) ++ keys kept := by
      rw [keys, List.map_append, List.map_map]
      rfl
    rw [← hCopied.names]
    exact (hFilled.list_perm.map _).trans
      ((List.Perm.of_eq hNames).trans List.perm_append_comm)
  distinct := (hFilled.list_perm.map _).nodup_iff.2 hFilled.distinct
  files := by
    intro e he
    rcases List.mem_append.1 (hFilled.list_perm.subset he) with hMem | hMem
    · obtain ⟨m, -, rfl⟩ := List.mem_map.1 hMem
      exact ⟨_, _, rfl⟩
    · exact hCopied.isFile_of_mem hMem
  copied := read_variables_of_filled hPlanned hShort hFilled hCopied
  documents := fun m hm => ⟨_, readText_of_filled hPlanned hShort hFilled hm, hReads m hm⟩
  outside := ⟨l, hFilled.leadsTo, hFilled.same⟩

end Filled

/-- Entries of a directory that a conversion leaves alone: none of them is revised, and none has a
name that the conversion gives. -/
structure LeftAlone (options : ConvertOptions) (plan : Plan) (directory : String)
    (base : OrderedMap String Entry) : Prop where
  distinct : (keys base).Nodup
  noManifest : ∀ e ∈ base, Manifest.IsNoManifest directory e
  variables_notMem : Compose.variablesName ∉ keys base
  planned_notMem : ∀ m ∈ plan.manifests, m.fileName ∉ keys base
  settled_notMem : ∀ m ∈ plan.manifests, (options.settled m).fileName ∉ keys base

theorem leftAlone_nil (options : ConvertOptions) (plan : Plan) (directory : String) :
    LeftAlone options plan directory [] := by
  constructor <;> simp [keys]

/-- Where the entries of the directory can be left alone, a conversion adds the settled manifests
and the copy of the variables to them, and its revision has nothing to repair. -/
theorem convert_of_leftAlone (hVars : p.dotEnv w = .ok vars)
    (hPlan : planOf settings options p.services vars = .ok plan)
    (hMade : prepareDirectory directory w = (.ok (), w₁)) (hLeads : w₁.LeadsTo directory l)
    (hAlone : LeftAlone options plan directory (w₁.entries l))
    (hShort : ∀ m ∈ plan.manifests, (child directory m.fileName).utf8ByteSize ≤ Path.lengthLimit)
    (hReads : ∀ m ∈ plan.manifests, m.document.ReadsBack) :
    ∃ report copy w₂, convert settings options p directory w = (.ok report, w₂) ∧
      report.revision.Clean ∧ Copied p w₁ copy ∧
      Filled w₁ directory l
        ((plan.manifests.map fun m => (options.settled m).entry) ++ (copy ++ w₁.entries l)) w₂ := by
  obtain ⟨space, hPlanned⟩ := planned_planOf hPlan
  have hNonempty : directory ≠ "" := (Workspace.leadsTo_iff.1 hLeads).2.1
  have hReady := hPlanned.ready
  obtain ⟨copied, copy, v, hCopy, hCopied, hKept⟩ :=
    copyVariables_start p (utf8ByteSize_variablesName hPlanned hNonempty hShort)
      (.start hLeads hAlone.distinct) hAlone.variables_notMem
  have hFree : ∀ m : Manifest, m.fileName ∉ keys (w₁.entries l) →
      m.fileName ∉ keys (copy ++ w₁.entries l) := by
    intro m hBase hMem
    rw [keys, List.map_append, List.mem_append] at hMem
    rcases hMem with hMem | hMem
    · exact fileName_ne_variablesName m (hCopied.of_mem hMem)
    · exact hBase hMem
  obtain ⟨written, u, hWrite, hWritten⟩ :=
    Manifest.mapM_writeTo hReady hShort hPlanned.nodup_slots hKept fun m hm =>
      hFree m (hAlone.planned_notMem m hm)
  have hSet : Manifest.Revisable options space directory (copy ++ w₁.entries l) plan.manifests :=
    ⟨hReady, hReads, hShort, hPlanned.nodup_slots, fun m hm =>
      hFree _ (hAlone.settled_notMem m hm)⟩
  have hNoManifest : ∀ e ∈ copy ++ w₁.entries l, Manifest.IsNoManifest directory e :=
    List.forall_mem_append.2 ⟨hCopied.isNoManifest hNonempty, hAlone.noManifest⟩
  obtain ⟨w₂, r, hRun, hFilled, hClean⟩ :=
    Manifest.run_revision hSet hNoManifest (List.subset_append_right _ _) hWritten
  have hRevise : (options.revision plan.namespace.stem).revise directory u = (.ok r, w₂) := by
    have hStem : plan.namespace.stem = space := by
      rw [hPlanned.namespace_eq]
      rfl
    rw [hStem, Manifest.Revision.revise,
      if_pos (Workspace.isDirectory_of_leadsTo hWritten.leadsTo), hRun]
  refine ⟨⟨plan.namespace.stem, directory, written, copied.toList, plan.services.map (·.1), r⟩,
    copy, w₂, ?_, hClean, hCopied, hFilled⟩
  rw [convert, Action.bind_of_ok (Action.ask_of_ok (by rw [hVars]; rfl)),
    Action.bind_of_ok (Action.ask_of_ok (by rw [hPlan]; rfl)), Action.bind_of_ok hMade,
    Action.bind_of_ok hCopy, Action.bind_of_ok hWrite, Action.bind_of_ok hRevise]
  rfl

/-- A conversion into a vacant directory leaves the settled manifests of the plan and the copy of
the variables there, and the revision has nothing to repair, as long as the directory can be made,
no path is too long and the texts of the documents are read as these documents. -/
theorem converted_of_planOf (hVars : p.dotEnv w = .ok vars)
    (hPlan : planOf settings options p.services vars = .ok plan) (hNonempty : directory ≠ "")
    (hMade : prepareDirectory directory w = (.ok (), w₁)) (hVacant : Vacant directory w w₁)
    (hShort : ∀ m ∈ plan.manifests, (child directory m.fileName).utf8ByteSize ≤ Path.lengthLimit)
    (hReads : ∀ m ∈ plan.manifests,
      m.document.ReadsBack ∧ (options.settled m).document.ReadsBack) :
    ∃ report w₂, convert settings options p directory w = (.ok report, w₂) ∧
      Converted options p plan directory w₁ w₂ ∧ report.revision.Clean := by
  obtain ⟨space, hPlanned⟩ := planned_planOf hPlan
  have hMem : plan.namespace ∈ plan.manifests := List.mem_cons_self ..
  have hName := Manifest.isName_fileName (hPlanned.ready _ hMem).stem
  have hDirectory : directory.utf8ByteSize ≤ Path.lengthLimit :=
    Nat.le_trans (Path.utf8ByteSize_le_child hNonempty hName) (hShort _ hMem)
  obtain ⟨hThere, hEmpty⟩ := hVacant.prepared hMade hNonempty hDirectory
  obtain ⟨l, hLeads⟩ := Workspace.exists_leadsTo hThere
  have hNil : w₁.entries l = [] := List.nil_perm.1 (hEmpty ▸ Workspace.list_of_leadsTo hLeads)
  have hAlone : LeftAlone options plan directory (w₁.entries l) := by
    rw [hNil]
    exact leftAlone_nil options plan directory
  obtain ⟨report, copy, w₂, hConvert, hClean, hCopied, hFilled⟩ :=
    convert_of_leftAlone hVars hPlan hMade hLeads hAlone hShort fun m hm => (hReads m hm).1
  rw [hNil, List.append_nil] at hFilled
  exact ⟨report, w₂, hConvert,
    converted_of_filled hPlanned hShort hFilled hCopied fun m hm => (hReads m hm).2, hClean⟩

/-! ### A web server on every node -/

/-- The variables of a project in the home are none. -/
theorem dotEnv_cleanHome {p : Project} (h : p.variablesPath = Compose.variablesName) :
    p.dotEnv cleanHome = .ok [] := by
  rw [Project.dotEnv, h, exists?_cleanHome isName_variablesName]
  rfl

/-- A service with nothing but an image. -/
def nginx : Service := { Service.empty "web" with image := some "nginx" }

def webProject : Project := ⟨"docker-compose.yml", [("web", nginx)]⟩

def onEveryNode : ConvertOptions := ⟨"shop", none, "latest", ["Web"]⟩

def webWorkload : Workload := workloadOf .standard onEveryNode [] "web" "shop" nginx

def webPlan : Plan := ⟨.ofNamespace "shop", [planService webWorkload]⟩

theorem planOf_webProject : planOf .standard onEveryNode webProject.services [] = .ok webPlan := by
  have hSpace : Name.ofText onEveryNode.namespace = .ok "shop" := by decide
  have hNames : Name.assign (keys webProject.services) = .ok [("web", "web")] := by decide
  exact planOf_eq_ok hSpace hNames

theorem readsBack_webPlan : ∀ m ∈ webPlan.manifests,
    m.document.ReadsBack ∧ (onEveryNode.settled m).document.ReadsBack := by
  have hReadable : ∀ m ∈ webPlan.manifests,
      m.document.Readable ∧ (onEveryNode.settled m).document.Readable := by
    decide +kernel
  exact fun m hm => (hReadable m hm).imp Yaml.Readable.readsBack Yaml.Readable.readsBack

/-- A conversion makes a directory in the home and leaves a daemon set of the web server there. -/
theorem converted_of_planOf_webProject :
    ∃ report w₂, convert .standard onEveryNode webProject "out" cleanHome = (.ok report, w₂) ∧
      Converted onEveryNode webProject webPlan "out" homeWithOut w₂ ∧ report.revision.Clean := by
  have hVars : webProject.dotEnv cleanHome = .ok [] := dotEnv_cleanHome (by decide)
  have hShort : ∀ m ∈ webPlan.manifests,
      (child "out" m.fileName).utf8ByteSize ≤ Path.lengthLimit := by
    decide +kernel
  exact converted_of_planOf hVars planOf_webProject (by decide) prepareDirectory_out vacant_out
    hShort readsBack_webPlan

/-! ### A directory that holds more -/

def bareProject : Project := ⟨"docker-compose.yml", []⟩

def barePlan : Plan := ⟨.ofNamespace "default", []⟩

theorem planOf_bareProject (vars : DotEnv) :
    planOf .standard .standard bareProject.services vars = .ok barePlan := by
  have hSpace : Name.ofText "default" = .ok "default" := by decide
  exact planOf_eq_ok hSpace rfl

theorem readsBack_barePlan : ∀ m ∈ barePlan.manifests,
    m.document.ReadsBack ∧ (ConvertOptions.standard.settled m).document.ReadsBack := by
  have hReadable : ∀ m ∈ barePlan.manifests,
      m.document.Readable ∧ (ConvertOptions.standard.settled m).document.Readable := by
    decide +kernel
  exact fun m hm => (hReadable m hm).imp Yaml.Readable.readsBack Yaml.Readable.readsBack

theorem leftAlone_sub : LeftAlone .standard barePlan "out/sub/.." [("sub", .directory)] := by
  have hFree : ∀ m : Manifest, m.fileName ∉ keys [("sub", Entry.directory)] := by
    intro m hMem
    have hEq : m.fileName = "sub" := List.mem_singleton.1 hMem
    have hLast : 'y' ∈ m.fileName.toList := by
      rw [Manifest.fileName_eq_title]
      simp
    rw [hEq] at hLast
    exact absurd hLast (by decide)
  refine ⟨List.nodup_singleton _, ?_, by decide, fun m _ => hFree m, fun m _ => hFree _⟩
  exact List.forall_mem_singleton.2 (.inr fun bytes executable => by simp)

/-- Nothing is at a path that leads up out of a directory on its way, and what a conversion leaves
there is more than its files. -/
theorem not_converted_of_path_up :
    cleanHome.exists? "out/sub/.." = false ∧
      planOf .standard .standard bareProject.services [] = .ok barePlan ∧
      prepareDirectory "out/sub/.." cleanHome = (.ok (), homeWithSub) ∧
      ∃ report w₂,
        convert .standard .standard bareProject "out/sub/.." cleanHome = (.ok report, w₂) ∧
        ("sub", Entry.directory) ∈ w₂.list "out/sub/.." ∧
        ¬ Converted .standard bareProject barePlan "out/sub/.." homeWithSub w₂ := by
  have hPlan := planOf_bareProject []
  have hVars : bareProject.dotEnv cleanHome = .ok [] := dotEnv_cleanHome (by decide)
  have hEntries : homeWithSub.entries ["home", "out"] = [("sub", .directory)] := rfl
  have hAlone :
      LeftAlone .standard barePlan "out/sub/.." (homeWithSub.entries ["home", "out"]) := by
    rw [hEntries]
    exact leftAlone_sub
  have hShort : ∀ m ∈ barePlan.manifests,
      (child "out/sub/.." m.fileName).utf8ByteSize ≤ Path.lengthLimit := by
    decide +kernel
  obtain ⟨report, copy, w₂, hConvert, -, -, hFilled⟩ :=
    convert_of_leftAlone hVars hPlan prepareDirectory_up leadsTo_up hAlone hShort
      fun m hm => (readsBack_barePlan m hm).1
  have hSub : ("sub", Entry.directory) ∈ w₂.list "out/sub/.." := by
    rw [hFilled.list_perm.mem_iff, hEntries]
    simp
  refine ⟨exists?_up, hPlan, prepareDirectory_up, report, w₂, hConvert, hSub, ?_⟩
  intro hConverted
  obtain ⟨bytes, executable, hFile⟩ := hConverted.files _ hSub
  exact absurd hFile (by simp)

end KubeCompose
