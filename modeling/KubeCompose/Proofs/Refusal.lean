import KubeCompose.Proofs.Inputs

/-!
# Conversions that are refused

A conversion that fails for another reason than what it writes has changed nothing, for such errors
are raised before anything is written. The one that is raised last is a directory that is not there
when it is revised; but a directory that was prepared stays there.
-/

namespace KubeCompose

open KubeCompose.Path (child)

variable {σ ε α β : Type} {w v : Workspace} {directory path : String}

/-! ### Errors of actions -/

section Errors

variable {E : ε → Prop} {x : ExceptT ε (StateM σ) α} {f : α → ExceptT ε (StateM σ) β} {s s' : σ}
  {e : ε}

/-- All errors of an action satisfy `E`. -/
def Raises (E : ε → Prop) (x : ExceptT ε (StateM σ) α) : Prop :=
  ∀ s e s', x s = (.error e, s') → E e

theorem raises_pure (a : α) : Raises E (pure a : ExceptT ε (StateM σ) α) := by
  intro s e s' h
  exact absurd (Prod.mk.inj h).1 (by simp)

theorem Raises.bind (hx : Raises E x) (hf : ∀ a, Raises E (f a)) : Raises E (x >>= f) := by
  intro s e s' h
  rcases Action.of_bind_eq_error h with hFirst | ⟨a, s₁, -, hRest⟩
  · exact hx s e s' hFirst
  · exact hf a s₁ e s' hRest

theorem Raises.map {g : α → β} (hx : Raises E x) : Raises E (g <$> x) := by
  rw [map_eq_pure_bind]
  exact hx.bind fun a => raises_pure (g a)

theorem raises_mapM {as : List α} {f : α → ExceptT ε (StateM σ) β} (h : ∀ a, Raises E (f a)) :
    Raises E (as.mapM f) := by
  induction as with
  | nil =>
    rw [List.mapM_nil]
    exact raises_pure []
  | cons a as ih =>
    rw [List.mapM_cons]
    exact (h a).bind fun b => ih.bind fun bs => raises_pure (b :: bs)

theorem of_mapError_eq_error {ε' : Type} {x : Except ε α} {g : ε → ε'} {e : ε'}
    (h : x.mapError g = .error e) : ∃ cause, x = .error cause ∧ e = g cause := by
  cases x with
  | error cause => exact ⟨cause, rfl, (Except.error.inj h).symm⟩
  | ok a => exact absurd h (by simp [Except.mapError])

end Errors

/-! ### Directories stay -/

namespace Workspace

/-- A workspace in which the directories and the links of another one stand. -/
structure Grown (w v : Workspace) : Prop where
  here : v.here = w.here
  skeleton : w.files.SkeletonIn v.files

theorem Grown.trans {u : Workspace} (h : Grown w v) (h' : Grown v u) : Grown w u :=
  ⟨h'.here.trans h.here, h.skeleton.trans h'.skeleton⟩

theorem Grown.isDirectory (h : Grown w v) (hThere : w.isDirectory path = true) :
    v.isDirectory path = true := by
  obtain ⟨l, hLeads⟩ := exists_leadsTo hThere
  exact isDirectory_of_leadsTo (hLeads.of_skeletonIn h.here h.skeleton)

theorem FreeFor.grown_put {l : Location} (h : w.FreeFor l) (entry : Entry) :
    Grown w (w.put l entry) := ⟨rfl, FileTree.skeletonIn_put h entry⟩

theorem grown_write {content : ByteArray} (h : w.write path content = .ok v) : Grown w v := by
  obtain ⟨place, x, -, hFree, rfl⟩ := of_write h
  exact hFree.grown_put _

theorem grown_copy {source : String} (h : w.copy source path = .ok v) : Grown w v := by
  obtain ⟨bytes, x, place, -, hFree, -, rfl⟩ := of_copy h
  refine (hFree.grown_put (.file .empty x)).trans (FreeFor.grown_put ?_ _)
  intro e hLook
  rw [put, FileTree.look?_put, if_neg hFree.ne_nil, if_pos rfl] at hLook
  exact ⟨_, _, (Option.some.inj hLook).symm⟩

end Workspace

/-! ### The directory of a conversion -/

/-- What a directory is after it has been prepared in `w`: it is there, unless its path is longer
than the system takes. Then nothing was made. -/
def Prepared (directory : String) (w v : Workspace) : Prop :=
  v.isDirectory directory = true ∨ v = w ∧ Path.lengthLimit < directory.utf8ByteSize

theorem prepared_prepareDirectory (hNonempty : directory ≠ "")
    (h : prepareDirectory directory w = (.ok (), v)) : Prepared directory w v := by
  have hMake := Workspace.makeDirectories_of_prepareDirectory h
  cases hParent : Path.parent? directory with
  | some above =>
    obtain ⟨tried, -, hForM⟩ := Workspace.exists_forM_of_makeDirectories hParent hNonempty hMake
    exact .inl (Workspace.isDirectory_of_forM hForM)
  | none =>
    by_cases hShort : directory.utf8ByteSize ≤ Path.lengthLimit
    · exact .inl (Workspace.isDirectory_of_parent?_eq_none hParent hNonempty hShort)
    · -- the root itself is not made, however many slashes spell it
      have hAncestors : Workspace.ancestors directory = [] := by
        rw [Workspace.ancestors]
        cases directory.length <;> simp [Workspace.ancestors.go, hParent]
      rw [Workspace.makeDirectories, hAncestors] at hMake
      exact .inr ⟨(Prod.mk.inj hMake).2.symm, Nat.not_le.1 hShort⟩

/-- What is put under a name in a prepared directory leaves it prepared. -/
theorem Prepared.of_grown {u : Workspace} {name : String} (h : Prepared directory w v)
    (hNonempty : directory ≠ "") (hName : Path.IsName name) {place : Place}
    (hPlace : v.place (child directory name) true = .ok place) (hGrown : v.Grown u) :
    Prepared directory w u := by
  rcases h with hThere | ⟨-, hLong⟩
  · exact .inl (hGrown.isDirectory hThere)
  · obtain ⟨-, -, hShort, -⟩ := Workspace.place_eq_ok_iff.1 hPlace
    have hLess := Path.utf8ByteSize_le_child hNonempty hName
    omega

section Stages

variable {settings : Settings} {options : ConvertOptions} {p : Compose.Project} {m : Manifest}
  (hNonempty : directory ≠ "")
include hNonempty

theorem keeps_prepared_copyVariables :
    Action.Keeps (Prepared directory w) (copyVariables p directory) := by
  intro v h
  rw [copyVariables]
  split
  · simp only
    split
    · rename_i u hCopy
      obtain ⟨-, -, place, hPlace, -⟩ := Workspace.of_copy hCopy
      exact h.of_grown hNonempty isName_variablesName hPlace (Workspace.grown_copy hCopy)
    · exact h
  · exact h

theorem keeps_prepared_writeTo (hStem : Name.normalize m.stem = m.stem) :
    Action.Keeps (Prepared directory w) (m.writeTo directory) := by
  refine (Action.keeps_ask _).bind fun text => (Action.keeps_change ?_).bind fun _ =>
    Action.keeps_pure _
  intro v u h hStep
  cases hWrite : v.write (child directory m.fileName) text.toUTF8 with
  | error e =>
    rw [hWrite] at hStep
    exact absurd hStep (by simp [Except.mapError])
  | ok u' =>
    rw [hWrite] at hStep
    rw [← Except.ok.inj hStep]
    obtain ⟨place, -, hPlace, -⟩ := Workspace.of_write hWrite
    exact h.of_grown hNonempty (Manifest.isName_fileName hStem) hPlace
      (Workspace.grown_write hWrite)

end Stages

/-! ### The errors of a conversion -/

/-- An error that a conversion may raise once it has begun to write. -/
def ConversionError.IsLate : ConversionError → Prop
  | .file _ | .notWritable _ => True
  | _ => False

theorem isLate_of_copyVariables (p : Compose.Project) (directory : String) :
    Raises ConversionError.IsLate (copyVariables p directory) := by
  intro w e v h
  rw [copyVariables] at h
  split at h
  · simp only at h
    split at h
    · exact absurd (Prod.mk.inj h).1 (by simp)
    · rw [← Except.error.inj (Prod.mk.inj h).1]
      trivial
  · exact absurd (Prod.mk.inj h).1 (by simp)

theorem isLate_of_writeTo (m : Manifest) (directory : String) :
    Raises ConversionError.IsLate (m.writeTo directory) := by
  refine Raises.bind ?_ fun text => Raises.bind ?_ fun _ => raises_pure _
  · intro w e v h
    obtain ⟨cause, -, rfl⟩ := of_mapError_eq_error (Prod.mk.inj h).1
    trivial
  · intro w e v h
    rw [Action.change] at h
    split at h
    · exact absurd (Prod.mk.inj h).1 (by simp)
    · rename_i hWrite
      obtain ⟨cause, -, rfl⟩ := of_mapError_eq_error hWrite
      rw [← Except.error.inj (Prod.mk.inj h).1]
      trivial

theorem of_prepareDirectory_eq_error {e : ConversionError}
    (h : prepareDirectory directory w = (.error e, v)) : e.IsLate ∨ v = w := by
  by_cases hTaken : (w.exists? directory && !w.isDirectory directory) = true
  · rw [prepareDirectory, if_pos hTaken] at h
    exact .inr (Prod.mk.inj h).2.symm
  · rw [Workspace.prepareDirectory_eq (by simpa using hTaken)] at h
    obtain ⟨cause, -, rfl⟩ := of_mapError_eq_error (Prod.mk.inj h).1
    exact .inl trivial

theorem of_revise_eq_error {o : Manifest.Revision} {e : ConversionError}
    (h : o.revise directory w = (.error e, v)) :
    e = .directoryNotFound directory ∧ w.isDirectory directory = false ∧ v = w := by
  rw [Manifest.Revision.revise] at h
  split at h
  · exact absurd (Prod.mk.inj h).1 (by simp)
  · rename_i hThere
    obtain ⟨hError, rfl⟩ := Prod.mk.inj h
    exact ⟨(Except.error.inj hError).symm, by simpa using hThere, rfl⟩

/-- A directory that is missing when it is revised was not made. -/
theorem Prepared.eq_of_notDirectory (h : Prepared directory w v)
    (hMissing : v.isDirectory directory = false) : v = w := by
  rcases h with hThere | ⟨hSame, -⟩
  · simp [hMissing] at hThere
  · exact hSame

section Convert

variable {settings : Settings} {options : ConvertOptions} {p : Compose.Project}
  {e : ConversionError} (hEarly : ¬ e.IsLate)
  (hNonempty : e = .directoryNotFound directory → directory ≠ "")
include hEarly hNonempty

/-- A directory that was prepared does not miss when it is revised. -/
theorem unchanged_of_fill_eq_error {u : Workspace} {o : Manifest.Revision}
    {manifests : List Manifest} (hStems : ∀ m ∈ manifests, Name.normalize m.stem = m.stem)
    (hPrepared : directory ≠ "" → Prepared directory w v)
    (h : fill o manifests directory v = (.error e, u)) : u = w := by
  rcases Action.of_bind_eq_error h with hWrite | ⟨written, v', hWrite, hRevising⟩
  · exact absurd (raises_mapM (fun m => isLate_of_writeTo m directory) _ _ _ hWrite) hEarly
  rcases Action.of_bind_eq_error hRevising with hRevise | ⟨report, v'', -, hEnd⟩
  · obtain ⟨hError, hMissing, rfl⟩ := of_revise_eq_error hRevise
    have hSome := hNonempty hError
    have hWritten := Action.keeps_mapM
      (fun m hm => keeps_prepared_writeTo (w := w) hSome (hStems m hm)) v (hPrepared hSome)
    rw [hWrite] at hWritten
    exact hWritten.eq_of_notDirectory hMissing
  · exact absurd (Prod.mk.inj hEnd).1 (by simp)

/-- A conversion that fails for another reason than what it writes has changed nothing. -/
theorem unchanged_of_convert_eq_error
    (h : convert settings options p directory w = (.error e, v)) : v = w := by
  rw [convert_eq] at h
  rcases Action.of_bind_eq_error h with hVars | ⟨vars, w', hVars, hPlanning⟩
  · exact (Prod.mk.inj hVars).2.symm
  obtain ⟨-, rfl⟩ := Action.of_ask_eq_ok hVars
  rcases Action.of_bind_eq_error hPlanning with hPlan | ⟨plan, w'', hPlan, hMaking⟩
  · exact (Prod.mk.inj hPlan).2.symm
  obtain ⟨hMapped, rfl⟩ := Action.of_ask_eq_ok hPlan
  obtain ⟨space, hPlanned⟩ := planned_planOf (of_mapError_eq_ok hMapped)
  rcases Action.of_bind_eq_error hMaking with hMade | ⟨_, w₁, hMade, hCopying⟩
  · exact (of_prepareDirectory_eq_error hMade).resolve_left hEarly
  rcases Action.of_bind_eq_error hCopying with hCopy | ⟨copied, w₂, hCopy, hFilling⟩
  · exact absurd (isLate_of_copyVariables p directory _ _ _ hCopy) hEarly
  rcases Action.of_bind_eq_error hFilling with hFill | ⟨filled, w₃, -, hEnd⟩
  · refine unchanged_of_fill_eq_error hEarly hNonempty
      (fun m hm => (hPlanned.ready m hm).stem) (fun hSome => ?_) hFill
    have hCopied := keeps_prepared_copyVariables (p := p) hSome w₁
      (prepared_prepareDirectory hSome hMade)
    rwa [hCopy] at hCopied
  · exact absurd (Prod.mk.inj hEnd).1 (by simp)

end Convert

end KubeCompose
