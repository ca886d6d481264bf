import KubeCompose.Proofs.Conversion
import KubeCompose.Proofs.Kept
import KubeCompose.Proofs.Lossless

/-!
# What a conversion does to its inputs

A conversion writes the files of its manifests, the copy of the variables and, as the directory is
revised, every manifest that it finds there. Any other file stays as it is, whether the conversion
succeeds or not; and a copy that is reported has the bytes of its source, as long as it is another
file and nothing is written over it.
-/

namespace KubeCompose

open KubeCompose.Path (IsName child)
open Workspace (Kept LeadsTo)

namespace Manifest

variable {w v : Workspace} {directory path : String} {k : Location} {content : ByteArray}
  {executable : Bool} {o : Revision}

theorem leadsTo_of_mem_list {e : String × Entry} (h : e ∈ w.list directory) :
    ∃ l, w.LeadsTo directory l ∧ e ∈ w.entries l := by
  have hIsDirectory : w.isDirectory directory = true := by
    rw [Workspace.list] at h
    rw [Workspace.isDirectory, Workspace.entryAt]
    split at h
    · rename_i hPlace
      rw [hPlace]
    · exact absurd h List.not_mem_nil
  obtain ⟨l, hLeads⟩ := Workspace.exists_leadsTo hIsDirectory
  exact ⟨l, hLeads, (Workspace.list_of_leadsTo hLeads).mem_iff.1 h⟩

/-- The path of a listed manifest leads to it or nowhere. -/
theorem of_mem_filesIn (hSound : w.files.Sound) (h : path ∈ filesIn w directory) :
    ∃ l name bytes x, w.LeadsTo directory l ∧ IsName name ∧ path = child directory name ∧
      isManifestName path = true ∧ ∀ last place, w.place path last = .ok place →
        place = .present (l ++ [name]) (.file bytes x) := by
  rw [filesIn_eq] at h
  obtain ⟨name, hName, rfl⟩ := List.mem_map.1 h
  obtain ⟨⟨found, entry⟩, hFound, hManifest⟩ := List.mem_filterMap.1 hName
  obtain ⟨rfl, hManifest, bytes, x, rfl⟩ := manifestName?_eq_some.1 hManifest
  obtain ⟨l, hLeads, hMem⟩ := leadsTo_of_mem_list hFound
  have hEntry := OrderedMap.find?_of_mem (FileTree.nodup_children hSound.distinct l) hMem
  have hLook : w.files.look? (l ++ [found]) = some (.file bytes x) := by
    rw [FileTree.look?_child, hEntry]
  have hIsName := hSound.isName l found _ hLook
  refine ⟨l, found, bytes, x, hLeads, hIsName, rfl, hManifest, fun last place hPlace => ?_⟩
  obtain ⟨-, -, hShort, -⟩ := Workspace.place_eq_ok_iff.1 hPlace
  have hReaches := Workspace.reaches_child hLeads hIsName hShort
  have hHere : OrderedMap.find? (w.entries l) found = some (.file bytes x) := hEntry
  have hThere := hReaches.place_eq (by simp [hHere]) last
  rw [hHere, hPlace] at hThere
  exact Except.ok.inj hThere

/-! ### A revision -/

/-- Without services for every node no path of a deployment has that of a daemon set. -/
theorem daemonPath?_of_nil (h : o.daemonServices = []) : o.daemonPath? path = none := by
  rw [Revision.daemonPath?]
  split
  · rfl
  · simp [Revision.isDaemon_of_nil h]

/-- A location to which the revision of a directory does not write: it is that of no manifest there,
and the path of no daemon set leads to it. -/
structure Apart (o : Revision) (directory : String) (w : Workspace) (k : Location) : Prop where
  listed : ∀ l name, w.LeadsTo directory l → isManifestName (child directory name) = true →
    k ≠ l ++ [name]
  daemonSets : ∀ name target, IsName name → o.daemonPath? (child directory name) = some target →
    ¬ w.Opens target k

/-- What a revision does not write to, it would not write to later. -/
theorem Apart.of_kept (h : Apart o directory w k) (hKept : Kept k w v)
    (hFile : w.files.look? k = some (.file content executable)) : Apart o directory v k where
  listed l name hLeads := h.listed l name (hKept.leadsTo hLeads)
  daemonSets name target hName hTarget := by
    rintro ⟨entry, hEntry⟩
    exact h.daemonSets name target hName hTarget ⟨_, hKept.place_eq hFile hEntry⟩

section Kept

variable (hSound : w.files.Sound) (hApart : Apart o directory w k)
  (hPath : path ∈ filesIn w directory)
include hSound hApart hPath

theorem place_ne_of_mem_filesIn (last : Bool) (entry : Entry) :
    w.place path last ≠ .ok (.present k entry) := by
  obtain ⟨l, name, bytes, x, hLeads, -, rfl, hManifest, hOnly⟩ := of_mem_filesIn hSound hPath
  intro hPlace
  have hSame := hOnly last _ hPlace
  rw [Place.present.injEq] at hSame
  exact hApart.listed l name hLeads hManifest hSame.1

variable (hFile : w.files.look? k = some (.file content executable))
include hFile

/-- Documents are stored in one file, and the file from which they come is taken away. -/
theorem kept_store {target : Option String} (hKept : Kept k w v)
    (hTarget : ¬ w.Opens (target.getD path) k) (text : String) (r : RevisionReport) :
    Kept k w (Revision.store path target text v r).1 := by
  have hNot := place_ne_of_mem_filesIn hSound hApart hPath
  rw [Revision.store]
  cases hWrite : v.write (target.getD path) text.toUTF8 with
  | error e => exact hKept
  | ok u =>
    have hWritten := hKept.write hFile hTarget hWrite
    cases target with
    | none => exact hWritten
    | some target =>
      simp only
      cases hDelete : u.delete path with
      | error e => exact hWritten
      | ok u' => exact hWritten.delete hFile (hNot false) hDelete

theorem kept_reviseFile (hKept : Kept k w v) (r : RevisionReport) :
    Kept k w (o.reviseFile (v, r) path).1 := by
  have hDestination : ¬ w.Opens ((o.daemonPath? path).getD path) k := by
    rintro ⟨entry, hEntry⟩
    cases hDaemon : o.daemonPath? path with
    | none =>
      rw [hDaemon, Option.getD_none] at hEntry
      exact place_ne_of_mem_filesIn hSound hApart hPath true entry hEntry
    | some target =>
      rw [hDaemon, Option.getD_some] at hEntry
      obtain ⟨l, name, bytes, x, -, hName, rfl, -⟩ := of_mem_filesIn hSound hPath
      exact hApart.daemonSets name target hName hDaemon ⟨entry, hEntry⟩
  rw [Revision.reviseFile]
  simp only
  cases v.readText path with
  | error e => exact hKept
  | ok text =>
    simp only
    cases parseDocuments text with
    | error e => exact hKept
    | ok documents =>
      simp only
      split
      · exact hKept
      · exact kept_store hSound hApart hPath hFile hKept hDestination _ _

theorem kept_renameFile (hKept : Kept k w v) (r : RevisionReport) :
    Kept k w (Revision.renameFile (v, r) path).1 := by
  have hNot := place_ne_of_mem_filesIn hSound hApart hPath
  -- nothing but a file is found under the path, since no directory and no link is new
  have hSource : ∀ l entry, v.place path false = .ok (.present l entry) → entry.IsFile := by
    intro l entry hPlace
    by_contra hNo
    have hLook := hKept.skeleton l entry (Workspace.look?_of_present hPlace) hNo
    have hBefore := Workspace.place_of_skeletonIn hKept.here.symm hKept.skeleton hPlace hLook id
    obtain ⟨_, _, bytes, x, -, -, -, -, hOnly⟩ := of_mem_filesIn hSound hPath
    have hSame := hOnly false _ hBefore
    rw [Place.present.injEq] at hSame
    exact hNo ⟨bytes, x, hSame.2⟩
  rw [Revision.renameFile]
  simp only
  split
  · exact hKept
  · split
    · split
      · exact hKept
      · rename_i hFree
        split
        · rename_i hMove
          exact hKept.move hFile (hNot false) hSource (by simpa using hFree) hMove
        · exact hKept
    · exact hKept

end Kept

/-- A revision leaves a file to which it does not write. -/
theorem kept_run (hSound : w.files.Sound)
    (hFile : w.files.look? k = some (.file content executable)) (hApart : Apart o directory w k) :
    Kept k w (o.run directory w).1 := by
  let revised := (filesIn w directory).foldl o.reviseFile (w, .empty)
  have hRevised : Kept k w revised.1 :=
    List.foldlRecOn (motive := fun state : Workspace × RevisionReport => Kept k w state.1) _ _
      (.refl hSound k)
      fun state h path hPath => kept_reviseFile hSound hApart hPath hFile h state.2
  have hThere : revised.1.files.look? k = some (.file content executable) := by
    rw [hRevised.same, hFile]
  have hStill := hApart.of_kept hRevised hFile
  refine hRevised.trans ?_
  exact List.foldlRecOn
    (motive := fun state : Workspace × RevisionReport => Kept k revised.1 state.1) _ _
    (.refl hRevised.sound k)
    fun state h path hPath => kept_renameFile hRevised.sound hStill hPath hThere h state.2

end Manifest

/-! ### The stages of a conversion -/

section Stages

variable {w v : Workspace} {directory : String} {k : Location} {content : ByteArray}
  {executable : Bool} {options : ConvertOptions} {p : Compose.Project}

/-- A sound workspace with a file at a location. -/
structure Holds (k : Location) (content : ByteArray) (executable : Bool) (w : Workspace) :
    Prop where
  sound : w.files.Sound
  file : w.files.look? k = some (.file content executable)

theorem Holds.of_kept (h : Holds k content executable w) (hKept : Kept k w v) :
    Holds k content executable v := ⟨hKept.sound, hKept.same.trans h.file⟩

/-- A sound workspace with all that stands in another one. -/
structure Extends (w v : Workspace) : Prop where
  here : v.here = w.here
  sound : v.files.Sound
  look : ∀ k entry, w.files.look? k = some entry → v.files.look? k = some entry

theorem keeps_ensureDirectory (w : Workspace) (path : String) :
    Action.Keeps (Extends w) (Workspace.ensureDirectory path) := by
  refine Action.keeps_change fun v u h hStep => ?_
  split at hStep
  · split at hStep
    · rwa [← Except.ok.inj hStep]
    · exact absurd hStep (by simp)
  · obtain ⟨-, l, hPlace, rfl⟩ := Workspace.of_makeDirectory_eq_ok hStep
    obtain ⟨-, -, -, hWalk⟩ := Workspace.place_eq_ok_iff.1 hPlace
    obtain ⟨hNone, -⟩ := FileTree.look?_of_walk_absent hWalk
    exact ⟨h.here, h.sound.put (fun m name hName => Workspace.isName_of_place h.sound hPlace hName)
      (by simp), fun k entry hLook => Workspace.look?_put_new hNone (h.look k entry hLook)⟩

/-- Nothing that is there is lost when directories are made. -/
theorem keeps_makeDirectories (w : Workspace) (path : String) :
    Action.Keeps (Extends w) (Workspace.makeDirectories path) := by
  rw [Workspace.makeDirectories]
  generalize Workspace.ancestors path = paths
  generalize ([] : List String) = missing
  induction paths generalizing missing with
  | nil => exact Action.keeps_forM fun p _ => keeps_ensureDirectory w p
  | cons path paths ih =>
    intro v h
    have hFirst := keeps_ensureDirectory w path v h
    rcases hEnsure : Workspace.ensureDirectory path v with ⟨e | ⟨⟩, u⟩
    · rw [hEnsure] at hFirst
      cases e with
      | notFound =>
        rw [Workspace.makeMissing_of_notFound hEnsure]
        exact ih _ u hFirst
      | _ =>
        simp only [Workspace.makeMissing, hEnsure]
        exact hFirst
    · rw [hEnsure] at hFirst
      rw [Workspace.makeMissing_of_ok hEnsure]
      exact Action.keeps_forM (fun p _ => keeps_ensureDirectory w p) u hFirst

theorem extends_prepareDirectory (hSound : w.files.Sound) (directory : String) :
    Extends w (prepareDirectory directory w).2 := by
  have hRefl : Extends w w := ⟨rfl, hSound, fun _ _ h => h⟩
  rw [prepareDirectory]
  split
  · exact hRefl
  · exact keeps_makeDirectories w directory w hRefl

/-- A file to which neither the manifests nor the revision of their directory are written. -/
structure Spared (o : Manifest.Revision) (manifests : List Manifest) (directory : String)
    (w : Workspace) (k : Location) : Prop extends Manifest.Apart o directory w k where
  planned : ∀ m ∈ manifests, ¬ w.Opens (child directory m.fileName) k

/-- The last part of a conversion: the manifests are written, and their directory is revised. -/
def fill (o : Manifest.Revision) (manifests : List Manifest) (directory : String) :
    Action ConversionError (List String × Manifest.RevisionReport) := do
  let written ← manifests.mapM fun m => m.writeTo directory
  let revision ← o.revise directory
  return (written, revision)

theorem keeps_fill {o : Manifest.Revision} {manifests : List Manifest}
    (h : Holds k content executable w) (hSpared : Spared o manifests directory w k) :
    Action.Keeps (Kept k w) (fill o manifests directory) := by
  have hWrite : ∀ m ∈ manifests, Action.Keeps (Kept k w) (m.writeTo directory) := by
    intro m hm
    refine (Action.keeps_ask _).bind fun text => (Action.keeps_change ?_).bind fun _ =>
      Action.keeps_pure _
    intro v u hKept hStep
    cases hWritten : v.write (child directory m.fileName) text.toUTF8 with
    | error e =>
      rw [hWritten] at hStep
      exact absurd hStep (by simp [Except.mapError])
    | ok u' =>
      rw [hWritten] at hStep
      rw [← Except.ok.inj hStep]
      exact hKept.write h.file (hSpared.planned m hm) hWritten
  have hRevise : Action.Keeps (Kept k w) (o.revise directory) := by
    intro v hKept
    rw [Manifest.Revision.revise]
    split
    · have hHolds := h.of_kept hKept
      exact hKept.trans (Manifest.kept_run hHolds.sound hHolds.file
        (hSpared.toApart.of_kept hKept h.file))
    · exact hKept
  exact (Action.keeps_mapM hWrite).bind fun _ => hRevise.bind fun _ => Action.keeps_pure _

theorem kept_copyVariables (h : Holds k content executable w)
    (hVariables : w.isFile p.variablesPath = true →
      ¬ w.Opens (child directory Compose.variablesName) k) :
    Kept k w (copyVariables p directory w).2 := by
  have hRefl : Kept k w w := .refl h.sound k
  rw [copyVariables]
  split
  · rename_i hThere
    simp only
    split
    · rename_i hCopy
      exact hRefl.copy h.file (hVariables hThere) hCopy
    · exact hRefl
  · exact hRefl

theorem of_copyVariables {copied : Option String} {target : String}
    (h : copyVariables p directory w = (.ok copied, v)) (hTarget : target ∈ copied.toList) :
    w.copy p.variablesPath target = .ok v := by
  rw [copyVariables] at h
  split at h
  · simp only at h
    split at h
    · rename_i hCopy
      obtain ⟨hCopied, rfl⟩ := Prod.mk.inj h
      rw [← Except.ok.inj hCopied, Option.toList_some, List.mem_singleton] at hTarget
      rw [hTarget, hCopy]
    · exact absurd (Prod.mk.inj h).1 (by simp)
  · rw [← Except.ok.inj (Prod.mk.inj h).1] at hTarget
    exact absurd hTarget (by simp)

/-- A conversion is made in stages. -/
theorem convert_eq (settings : Settings) (options : ConvertOptions) (p : Compose.Project)
    (directory : String) :
    convert settings options p directory =
      (Action.ask fun w => (p.dotEnv w).mapError .file) >>= fun vars =>
      (Action.ask fun _ => (planOf settings options p.services vars).mapError .name) >>= fun plan =>
      prepareDirectory directory >>= fun _ =>
      copyVariables p directory >>= fun copied =>
      fill (options.revision plan.namespace.stem) plan.manifests directory >>= fun filled =>
      pure ⟨plan.namespace.stem, directory, filled.1, copied.toList, plan.services.map (·.1),
        filled.2⟩ := by
  simp only [convert, fill, bind_assoc, pure_bind]

end Stages

/-! ### The inputs -/

variable {settings : Settings} {options : ConvertOptions} {p : Compose.Project}
  {directory : String} {w : Workspace}

/-- What a conversion into a directory does to the files that are there before, among them the
project file and the variables of the project. -/
structure InputsKept (settings : Settings) (options : ConvertOptions) (p : Compose.Project)
    (directory : String) (w : Workspace) : Prop where
  /-- A file stays as it is, whether the conversion succeeds or not, when none of the paths leads to
  it to which something is written. -/
  files : ∀ k content executable, w.files.look? k = some (.file content executable) →
    ((prepareDirectory directory w).2.isFile p.variablesPath = true →
      ¬ (prepareDirectory directory w).2.Opens (child directory Compose.variablesName) k) →
    (∀ vars plan, p.dotEnv w = .ok vars → planOf settings options p.services vars = .ok plan →
      Spared (options.revision plan.namespace.stem) plan.manifests directory
        (prepareDirectory directory w).2 k) →
    (convert settings options p directory w).2.files.look? k = some (.file content executable)
  /-- A copy that is reported has the bytes of its source, when it is another file than this and
  nothing is written over it. -/
  copied : ∀ report, (convert settings options p directory w).1 = .ok report →
    ∀ target ∈ report.copied, ∀ place,
      (prepareDirectory directory w).2.place target true = .ok place →
      ¬ (prepareDirectory directory w).2.Opens p.variablesPath place.location →
      (∀ vars plan, p.dotEnv w = .ok vars → planOf settings options p.services vars = .ok plan →
        Spared (options.revision plan.namespace.stem) plan.manifests directory
          (copyVariables p directory (prepareDirectory directory w).2).2 place.location) →
      ∃ content executable,
        (prepareDirectory directory w).2.read p.variablesPath = .ok content ∧
        (convert settings options p directory w).2.files.look? place.location =
          some (.file content executable)

theorem of_mapError_eq_ok {ε ε' α : Type} {x : Except ε α} {f : ε → ε'} {a : α}
    (h : x.mapError f = .ok a) : x = .ok a := by
  cases x with
  | error e => exact absurd h (by simp [Except.mapError])
  | ok b => rw [← Except.ok.inj h]

/-- A conversion changes no file but those to which it writes. -/
theorem inputsKept_convert (hSound : w.files.Sound) (settings : Settings)
    (options : ConvertOptions) (p : Compose.Project) (directory : String) :
    InputsKept settings options p directory w where
  files k content executable hFile hVariables hSpared := by
    have hExtends := extends_prepareDirectory hSound directory
    have hHolds : Holds k content executable (prepareDirectory directory w).2 :=
      ⟨hExtends.sound, hExtends.look k _ hFile⟩
    let P : Workspace → Prop := fun v => v.files.look? k = some (.file content executable)
    change P (convert settings options p directory w).2
    rw [convert_eq]
    refine Action.of_bind hFile fun vars _ hAsk => ?_
    obtain ⟨hVars, rfl⟩ := Action.of_ask_eq_ok hAsk
    refine Action.of_bind hFile fun plan _ hAsk' => ?_
    obtain ⟨hPlan, rfl⟩ := Action.of_ask_eq_ok hAsk'
    have hHere := hSpared vars plan (of_mapError_eq_ok hVars) (of_mapError_eq_ok hPlan)
    refine Action.of_bind hHolds.file fun _ v hMade => ?_
    rw [hMade] at hHolds hVariables hHere
    have hCopied := kept_copyVariables hHolds hVariables
    refine Action.of_bind (hCopied.same.trans hHolds.file) fun copied u hCopy => ?_
    rw [hCopy] at hCopied
    have hFilled := keeps_fill hHolds hHere u hCopied
    refine Action.of_bind (hFilled.same.trans hHolds.file) fun filled u' hFill => ?_
    rw [hFill] at hFilled
    exact hFilled.same.trans hHolds.file
  copied report hReport target hTarget place hPlace hOther hSpared := by
    rcases hConvert : convert settings options p directory w with ⟨answer, w'⟩
    rw [hConvert] at hReport
    obtain rfl : answer = .ok report := hReport
    rw [convert_eq] at hConvert
    obtain ⟨vars, _, hAsk, hRest⟩ := Action.of_bind_eq_ok hConvert
    obtain ⟨hVars, rfl⟩ := Action.of_ask_eq_ok hAsk
    obtain ⟨plan, _, hAsk', hRest'⟩ := Action.of_bind_eq_ok hRest
    obtain ⟨hPlan, rfl⟩ := Action.of_ask_eq_ok hAsk'
    have hHere := hSpared vars plan (of_mapError_eq_ok hVars) (of_mapError_eq_ok hPlan)
    have hExtends := extends_prepareDirectory hSound directory
    obtain ⟨_, v, hMade, hStages⟩ := Action.of_bind_eq_ok hRest'
    rw [hMade] at hPlace hOther hHere hExtends ⊢
    obtain ⟨copied, u, hCopy, hLast⟩ := Action.of_bind_eq_ok hStages
    obtain ⟨filled, u', hFill, hReturn⟩ := Action.of_bind_eq_ok hLast
    obtain ⟨hReported, rfl⟩ := Prod.mk.inj hReturn
    rw [← Except.ok.inj hReported] at hTarget
    have hCopied := of_copyVariables hCopy hTarget
    obtain ⟨content, executable, hRead, hLook⟩ := Workspace.look?_of_copy hCopied hPlace hOther
    rw [hCopy] at hHere
    have hHolds : Holds place.location content executable u :=
      ⟨Workspace.sound_of_copy hExtends.sound hCopied, hLook⟩
    have hFilled := keeps_fill hHolds hHere u (.refl hHolds.sound _)
    rw [hFill] at hFilled
    exact ⟨content, executable, hRead, hFilled.same.trans hLook⟩

/-! ### A home with a project -/

open Workspace (homeWith Plain)

/-- A home is sound when its entries are files and directories under names that can be given. -/
theorem sound_homeWith {es : List (String × Entry)} (hDistinct : (OrderedMap.keys es).Nodup)
    (hNames : ∀ e ∈ es, IsName e.1) (hNoLink : ∀ e ∈ es, ∀ target, e.2 ≠ .link target) :
    (homeWith es).files.Sound := by
  have hHome : IsName "home" := by decide
  have hEntry : ∀ l entry, OrderedMap.find? (homeWith es).files l = some entry →
      (l = ["home"] ∧ entry = .directory) ∨ ∃ e ∈ es, l = ["home", e.1] ∧ entry = e.2 := by
    intro l entry hFind
    have hMem := OrderedMap.mem_of_find? hFind
    rw [homeWith, List.mem_cons, List.mem_map] at hMem
    rcases hMem with hHere | ⟨e, he, hSame⟩
    · exact .inl (Prod.mk.inj hHere)
    · exact .inr ⟨e, he, (Prod.mk.inj hSame).1.symm, (Prod.mk.inj hSame).2.symm⟩
  refine ⟨?_, fun l name entry hLook => ?_, fun l target hLook => ?_⟩
  · have hKeys : OrderedMap.keys (homeWith es).files =
        ["home"] :: (OrderedMap.keys es).map fun name => ["home", name] := by
      simp [homeWith, OrderedMap.keys]
    rw [hKeys]
    refine List.nodup_cons.2 ⟨by simp, hDistinct.map fun a b hab => by simpa using hab⟩
  · rw [FileTree.look?, if_neg (by simp)] at hLook
    rcases hEntry _ _ hLook with ⟨hHere, -⟩ | ⟨e, he, hThere, -⟩
    · have hSame : l ++ [name] = [] ++ ["home"] := hHere
      obtain ⟨-, hLast⟩ := List.append_inj' hSame rfl
      rw [(List.cons.inj hLast).1]
      exact hHome
    · have hSame : l ++ [name] = ["home"] ++ [e.1] := hThere
      obtain ⟨-, hLast⟩ := List.append_inj' hSame rfl
      rw [(List.cons.inj hLast).1]
      exact hNames e he
  · rw [FileTree.look?] at hLook
    split at hLook
    · simp at hLook
    · rcases hEntry _ _ hLook with ⟨-, hDirectory⟩ | ⟨e, he, -, hSame⟩
      · simp at hDirectory
      · exact absurd hSame.symm (hNoLink e he target)

section Home

variable {es : List (String × Entry)} {name : String} {entry : Entry}

theorem reaches_homeWith (es : List (String × Entry)) (hName : IsName name) :
    (homeWith es).Reaches ["home"] name name :=
  Workspace.reaches_name rfl hName

theorem place_homeWith (hName : IsName name) (hFind : OrderedMap.find? es name = some entry)
    (hNoLink : ∀ target, entry ≠ .link target) (last : Bool) :
    (homeWith es).place name last = .ok (.present ["home", name] entry) := by
  have hPlace := (reaches_homeWith es hName).place_eq
  rw [Workspace.entries_homeWith, hFind] at hPlace
  exact hPlace (fun target h => hNoLink target (Option.some.inj h)) last

theorem place_homeWith_of_none (hName : IsName name) (hNone : OrderedMap.find? es name = none)
    (last : Bool) : (homeWith es).place name last = .ok (.absent ["home", name]) := by
  have hPlace := (reaches_homeWith es hName).place_eq
  rw [Workspace.entries_homeWith, hNone] at hPlace
  exact hPlace (fun _ => by simp) last

theorem readText_homeWith {text : String} {executable : Bool} (hName : IsName name)
    (hFind : OrderedMap.find? es name = some (.file text.toUTF8 executable)) :
    (homeWith es).readText name = .ok text := by
  rw [Workspace.readText, Workspace.read, Workspace.entryAt,
    place_homeWith hName hFind (by simp)]
  simp only [Text.fromUTF8?_toUTF8]

/-- A project whose file stands in the home is loaded from there. -/
theorem load_homeWith {text : String} {executable : Bool}
    {services : OrderedMap String Compose.Service}
    (hFind : OrderedMap.find? es "docker-compose.yml" = some (.file text.toUTF8 executable))
    (hParse : Compose.parseServices text = .ok services) :
    Compose.Project.load (homeWith es) "docker-compose.yml" =
      .ok ⟨"docker-compose.yml", services⟩ := by
  have hName : IsName "docker-compose.yml" := by decide
  have hThere : (homeWith es).isFile "docker-compose.yml" = true := by
    rw [Workspace.isFile, Workspace.entryAt, place_homeWith hName hFind (by simp)]
  rw [Compose.Project.load, Compose.locate, if_pos hThere]
  simp only [bind, Except.bind, readText_homeWith hName hFind, Except.mapError, hParse]
  rfl

/-- Where the home has no variables, a project there has none. -/
theorem dotEnv_homeWith {p : Compose.Project} (hPath : p.variablesPath = Compose.variablesName)
    (hNone : OrderedMap.find? es Compose.variablesName = none) : p.dotEnv (homeWith es) = .ok [] := by
  rw [Compose.Project.dotEnv, hPath,
    Workspace.exists?_of_absent (place_homeWith_of_none isName_variablesName hNone true)]
  rfl

end Home

/-- A project file, the variables of the project, and an empty directory. -/
def projectEntries : List (String × Entry) :=
  [("docker-compose.yml", .file "services: \x7b\x7d\n".toUTF8 false),
   (".env", .file "A=1\n".toUTF8 false),
   ("out", .directory)]

theorem leadsTo_projectEntries : (homeWith projectEntries).LeadsTo "out" ["home", "out"] :=
  Workspace.leadsTo_name rfl isName_out rfl

theorem not_opens_projectEntries {name : String} {k : Location} (hName : IsName name)
    (hShort : (child "out" name).utf8ByteSize ≤ Path.lengthLimit) :
    ¬ (homeWith projectEntries).Opens (child "out" name) k := by
  have hReaches := Workspace.reaches_child leadsTo_projectEntries hName hShort
  have hNone : OrderedMap.find? ((homeWith projectEntries).entries ["home", "out"]) name = none :=
    rfl
  have hPlace := hReaches.place_eq (by simp [hNone]) true
  rw [hNone] at hPlace
  rintro ⟨entry, hEntry⟩
  rw [hPlace] at hEntry
  simp at hEntry

/-- A project in the home is left as it is by a conversion into a directory beside it. -/
theorem inputsKept_convert_projectEntries :
    (convert .standard .standard bareProject "out" (homeWith projectEntries)).2.files.look?
        ["home", "docker-compose.yml"] =
          some (.file "services: \x7b\x7d\n".toUTF8 false) ∧
      (convert .standard .standard bareProject "out" (homeWith projectEntries)).2.files.look?
        ["home", ".env"] = some (.file "A=1\n".toUTF8 false) := by
  have hSound : (homeWith projectEntries).files.Sound :=
    sound_homeWith (by decide) (by decide) (by simp [projectEntries])
  have hKept := inputsKept_convert hSound .standard .standard bareProject "out"
  have hMade : (prepareDirectory "out" (homeWith projectEntries)).2 = homeWith projectEntries := by
    have hThere := Workspace.isDirectory_of_leadsTo leadsTo_projectEntries
    rw [Workspace.prepareDirectory_of_isDirectory hThere]
  have hEach : ∀ name content, (homeWith projectEntries).files.look? ["home", name] =
      some (.file content false) →
        (convert .standard .standard bareProject "out" (homeWith projectEntries)).2.files.look?
          ["home", name] = some (.file content false) := by
    intro name content hFile
    refine hKept.files _ _ _ hFile (fun _ => ?_) fun vars plan _ hPlan => ?_
    · rw [hMade]
      exact not_opens_projectEntries isName_variablesName (by decide +kernel)
    · rw [hMade]
      rw [planOf_bareProject] at hPlan
      obtain rfl := Except.ok.inj hPlan
      refine ⟨⟨fun l other hLeads _ => ?_, fun other target _ hTarget => ?_⟩, fun m hm => ?_⟩
      · have hSame := hLeads.symm.trans leadsTo_projectEntries
        obtain rfl : l = ["home", "out"] := by simpa using hSame
        simp
      · rw [Manifest.daemonPath?_of_nil rfl] at hTarget
        exact absurd hTarget (by simp)
      · obtain rfl : m = .ofNamespace "default" := by simpa [barePlan, Plan.manifests] using hm
        exact not_opens_projectEntries (by decide) (by decide +kernel)
  exact ⟨hEach _ _ rfl, hEach _ _ rfl⟩

/-- The text of a project file with a web server. -/
def webText : String := "services:\n  web:\n    image: nginx\n"

/-- The project file of the web server, and an empty directory. -/
def webEntries : List (String × Entry) :=
  [("docker-compose.yml", .file webText.toUTF8 false), ("out", .directory)]

theorem load_webEntries :
    Compose.Project.load (homeWith webEntries) "docker-compose.yml" = .ok webProject := by
  have hParse : Yaml.parse webText =
      .ok (.fields [("services", .fields [("web", .fields [("image", .str "nginx")])])]) := by
    decide +kernel
  refine load_homeWith rfl ?_
  rw [Compose.parseServices, hParse]
  rfl

theorem leadsTo_webEntries : (homeWith webEntries).LeadsTo "out" ["home", "out"] :=
  Workspace.leadsTo_name rfl isName_out rfl

/-! ### A project that is converted where it is -/

/-- The text of a project file without services, and with a comment. -/
def commentedText : String := "services: \x7b\x7d\n# nothing yet\n"

def commentedHome : Workspace := homeWith [("docker-compose.yml", .file commentedText.toUTF8 false)]

/-- The document of a project file without services. -/
def bareDocument : Yaml := .fields [("services", .map [])]

theorem parseDocuments_commentedText :
    Manifest.parseDocuments commentedText = .ok [bareDocument] := by decide +kernel

theorem plain_commentedHome : commentedHome.Plain "." ["home"] :=
  Workspace.plain_homeWith (by decide) (by decide) (by simp)

theorem folder_commentedHome (name : String) :
    commentedHome.folder ["home"] name =
      if name == "docker-compose.yml" then some (.file commentedText.toUTF8 false) else none := by
  rw [Workspace.folder, commentedHome, Workspace.entries_homeWith]
  rfl

/-- The home with the manifest of the namespace beside the project file. -/
def namespacedHome : Workspace :=
  commentedHome.put (["home"] ++ ["namespace.yaml"])
    (.file (Manifest.ofNamespace "default").document.render.toUTF8 false)

theorem plain_namespacedHome : namespacedHome.Plain "." ["home"] := by
  refine plain_commentedHome.put (by decide) ?_ _ _
  rw [folder_commentedHome, if_neg (by decide)]
  simp

theorem folder_namespacedHome :
    namespacedHome.folder ["home"] "docker-compose.yml" =
      some (.file commentedText.toUTF8 false) := by
  rw [namespacedHome, Workspace.folder_put, Function.update_of_ne (by decide),
    folder_commentedHome]
  rfl

theorem writeTo_namespacedHome :
    (Manifest.ofNamespace "default").writeTo "." commentedHome =
      (.ok (child "." "namespace.yaml"), namespacedHome) := by
  have hText : (Manifest.ofNamespace "default").document.write =
      .ok (Manifest.ofNamespace "default").document.render :=
    Yaml.write_eq_ok_iff.2 ⟨isWritable_ofNamespace "default", rfl⟩
  have hFits : Workspace.Fits "." "namespace.yaml" := by decide
  have hNone : commentedHome.folder ["home"] "namespace.yaml" = none := by
    rw [folder_commentedHome]
    rfl
  have hWrite := Workspace.write_of_reaches (plain_commentedHome.noLink _)
    (plain_commentedHome.reaches hFits) (Manifest.ofNamespace "default").document.render.toUTF8
  have hDirectory : (commentedHome.folder ["home"]).hasDirectory "namespace.yaml" = false := by
    rw [Folder.hasDirectory, hNone]
  have hExecutable : (commentedHome.folder ["home"]).isExecutable "namespace.yaml" = false := by
    rw [Folder.isExecutable, hNone]
  rw [hDirectory, hExecutable, if_neg (by simp)] at hWrite
  rw [Manifest.writeTo, Action.bind_of_ok (Action.ask_of_ok (by rw [hText]; rfl)),
    Action.bind_of_ok (Action.change_of_ok (by
      change (commentedHome.write (child "." "namespace.yaml") _).mapError _ = _
      rw [hWrite]
      rfl))]
  rfl

open Manifest Revision in
/-- The revision of the home leaves the project file without its comment. -/
theorem folder_run_namespacedHome :
    ∃ executable,
      ((ConvertOptions.standard.revision "default").run "." namespacedHome).1.folder ["home"]
        "docker-compose.yml" = some (.file "services: \x7b\x7d\n".toUTF8 executable) := by
  let o := ConvertOptions.standard.revision "default"
  have hPlain := plain_namespacedHome
  have hDestination : ∀ name, o.destination name = name := by
    intro name
    rw [destination, daemonName?_of_nil rfl, Option.getD_none]
  have hMem : "docker-compose.yml" ∈ manifestNames namespacedHome "." :=
    (mem_manifestNames hPlain).2 ⟨by decide +kernel, _, _, folder_namespacedHome⟩
  have hKept : ¬ o.Overwritten (namespacedHome.folder ["home"]) (manifestNames namespacedHome ".")
      "docker-compose.yml" := by
    rintro ⟨m, -, hNe, hSame, -⟩
    exact hNe ((hDestination m).symm.trans hSame)
  have hStored : o.stored (namespacedHome.folder ["home"]) "docker-compose.yml" =
      .ok "services: \x7b\x7d\n" := by
    have hTransformed : o.transformed "docker-compose.yml" [bareDocument] = [bareDocument] := by
      rw [transformed, daemonName?_of_nil rfl]
      decide +kernel
    have hRender : bareDocument.render = "services: \x7b\x7d\n" := by decide +kernel
    rw [← hRender]
    refine stored_of_document folder_namespacedHome (Text.fromUTF8?_toUTF8 _)
      parseDocuments_commentedText hTransformed (by decide +kernel) ?_
    rw [hDestination, folder_namespacedHome]
    simp
  have hMiddle : o.middleName (namespacedHome.folder ["home"]) "docker-compose.yml" =
      "docker-compose.yml" := by
    rw [middleName_of_ok hStored, hDestination]
  have hLast : o.lastName "." ["home"] namespacedHome "docker-compose.yml" =
      "docker-compose.yml" := by
    rcases o.lastName_cases "." ["home"] namespacedHome "docker-compose.yml" with hSame | hSame
    · rw [hSame, hMiddle]
    · rw [hSame, hMiddle, Revise.dashed_eq_self (by decide)]
  obtain ⟨w₂, r, hRun, hSteps, -⟩ := run_eq hPlain o
  obtain ⟨bytes, executable, hFile, -, hBytes⟩ := exists_file_middleName hPlain o hMem hKept
  have hFolder := folder_lastName hPlain o hMem hKept hSteps.folder
  rw [hLast, hFile, hBytes _ hStored] at hFolder
  refine ⟨executable, ?_⟩
  change (o.run "." namespacedHome).1.folder ["home"] "docker-compose.yml" = _
  rw [hRun]
  exact hFolder

/-- A conversion into the directory of the project revises the project file. -/
theorem not_kept_of_same_directory :
    commentedHome.files.look? ["home", "docker-compose.yml"] =
        some (.file commentedText.toUTF8 false) ∧
      (convert .standard .standard bareProject "." commentedHome).2.files.look?
        ["home", "docker-compose.yml"] ≠ some (.file commentedText.toUTF8 false) := by
  refine ⟨rfl, ?_⟩
  have hVariables : bareProject.variablesPath = Compose.variablesName := by decide
  have hNoVariables : commentedHome.entryAt Compose.variablesName = .error .notFound := by
    rw [Workspace.entryAt, commentedHome, place_homeWith_of_none isName_variablesName rfl]
  have hVars : bareProject.dotEnv commentedHome = .ok [] := dotEnv_homeWith hVariables rfl
  have hMade : prepareDirectory "." commentedHome = (.ok (), commentedHome) :=
    Workspace.prepareDirectory_of_isDirectory
      (Workspace.isDirectory_of_leadsTo plain_commentedHome.leads)
  have hCopy : copyVariables bareProject "." commentedHome = (.ok none, commentedHome) := by
    rw [copyVariables, hVariables, Workspace.isFile, hNoVariables]
    rfl
  have hWritten : (barePlan.manifests.mapM fun m => m.writeTo "." :
      Action ConversionError (List String)) commentedHome =
        (.ok [child "." "namespace.yaml"], namespacedHome) := by
    have hManifests : barePlan.manifests = [.ofNamespace "default"] := rfl
    rw [hManifests, List.mapM_cons, Action.bind_of_ok writeTo_namespacedHome, List.mapM_nil]
    rfl
  obtain ⟨executable, hFile⟩ := folder_run_namespacedHome
  rcases hRun : (ConvertOptions.standard.revision "default").run "." namespacedHome with ⟨w₂, r⟩
  rw [hRun] at hFile
  have hRevise : (ConvertOptions.standard.revision "default").revise "." namespacedHome =
      (.ok r, w₂) := by
    rw [Manifest.Revision.revise,
      if_pos (Workspace.isDirectory_of_leadsTo plain_namespacedHome.leads), hRun]
  have hStem : barePlan.namespace.stem = "default" := rfl
  have hConvert : (convert .standard .standard bareProject "." commentedHome).2 = w₂ := by
    rw [← hStem] at hRevise
    rw [convert, Action.bind_of_ok (Action.ask_of_ok (by rw [hVars]; rfl)),
      Action.bind_of_ok (Action.ask_of_ok (by rw [planOf_bareProject]; rfl)),
      Action.bind_of_ok hMade, Action.bind_of_ok hCopy, Action.bind_of_ok hWritten,
      Action.bind_of_ok hRevise]
    rfl
  have hThere : w₂.files.look? ["home", "docker-compose.yml"] = _ :=
    (w₂.look?_folder ["home"] "docker-compose.yml").trans hFile
  rw [hConvert, hThere]
  intro hSame
  simp only [Option.some.injEq, Entry.file.injEq] at hSame
  have hText := Text.fromUTF8?_toUTF8 "services: \x7b\x7d\n"
  rw [hSame.1, Text.fromUTF8?_toUTF8, Option.some.injEq] at hText
  exact absurd hText (by decide)

end KubeCompose
