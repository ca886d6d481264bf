import KubeCompose.CommandLine.Run
import KubeCompose.Proofs.Arguments
import KubeCompose.Proofs.Refusal

/-!
# Commands that are refused

A command that ends with the status of a bad input or of a bad usage has changed nothing: what is
read before a conversion changes nothing, a conversion that is refused has changed nothing, and what
follows on it fails for the tools only.
-/

namespace KubeCompose

open Workspace (homeWith)

variable {w : Workspace}

namespace CommandLine

/-! ### The errors of a command -/

/-- An error for which a command is refused. -/
def CommandError.IsRefusal (e : CommandError) : Prop :=
  e.failureClass = .input ∨ e.failureClass = .usage

theorem CommandError.isRefusal_iff {e : CommandError} :
    e.IsRefusal ↔ e.failureClass.status = 2 ∨ e.failureClass.status = 64 := by
  rw [IsRefusal]
  cases e.failureClass <;> simp [FailureClass.status]

theorem not_isRefusal_tool (cause : ToolError) : ¬ (CommandError.tool cause).IsRefusal := by
  cases cause <;> simp [CommandError.IsRefusal, CommandError.failureClass]

theorem not_isLate_of_isRefusal {e : ConversionError} (h : (CommandError.conversion e).IsRefusal) :
    ¬ e.IsLate := by
  cases e <;> simp_all [CommandError.IsRefusal, CommandError.failureClass, ConversionError.IsLate]

namespace Part

variable {α β ε : Type} {s s' : Session} {x : Part α} {f : α → Part β} {e : CommandError} {a : α}

/-- A part of a command that changes nothing. -/
def Reads (x : Part α) : Prop := ∀ s, (x s).2.workspace = s.workspace

theorem reads_pure (a : α) : Reads (pure a) := fun _ => rfl

theorem reads_throw (e : CommandError) : Reads (throw e : Part α) := fun _ => rfl

theorem reads_ask (question : Workspace → Except CommandError α) : Reads (ask question) :=
  fun _ => rfl

theorem reads_say (text : String) : Reads (say text) := fun _ => rfl

theorem Reads.of_eq {result : Except CommandError α} (h : Reads x) (hEq : x s = (result, s')) :
    s'.workspace = s.workspace := by
  have hSame := h s
  rwa [hEq] at hSame

theorem Reads.bind (hx : Reads x) (hf : ∀ a, Reads (f a)) : Reads (x >>= f) := by
  intro s
  rcases hRun : (x >>= f) s with ⟨e | b, s'⟩
  · rcases Action.of_bind_eq_error hRun with hFirst | ⟨a, s₁, hFirst, hRest⟩
    · exact hx.of_eq hFirst
    · exact ((hf a).of_eq hRest).trans (hx.of_eq hFirst)
  · obtain ⟨a, s₁, hFirst, hRest⟩ := Action.of_bind_eq_ok hRun
    exact ((hf a).of_eq hRest).trans (hx.of_eq hFirst)

theorem of_act_eq_ok {wrap : ε → CommandError} {action : Workspace → Except ε α × Workspace}
    (h : act wrap action s = (.ok a, s')) : action s.workspace = (.ok a, s'.workspace) := by
  obtain ⟨hResult, rfl⟩ := Prod.mk.inj h
  exact Prod.ext (of_mapError_eq_ok hResult) rfl

theorem of_act_eq_error {wrap : ε → CommandError} {action : Workspace → Except ε α × Workspace}
    (h : act wrap action s = (.error e, s')) :
    ∃ cause, e = wrap cause ∧ action s.workspace = (.error cause, s'.workspace) := by
  obtain ⟨hResult, rfl⟩ := Prod.mk.inj h
  obtain ⟨cause, hCause, rfl⟩ := of_mapError_eq_error hResult
  exact ⟨cause, rfl, Prod.ext hCause rfl⟩

section Raises

variable {E : CommandError → Prop}

theorem raises_say (text : String) : Raises E (say text) := by
  intro s e s' h
  exact absurd (Prod.mk.inj h).1 (by simp)

theorem raises_act {wrap : ε → CommandError} (h : ∀ cause, E (wrap cause))
    (action : Workspace → Except ε α × Workspace) : Raises E (act wrap action) := by
  intro s e s' hRun
  obtain ⟨cause, rfl, -⟩ := of_act_eq_error hRun
  exact h cause

/-- What is caught is not raised. -/
theorem raises_tryCatch {handler : CommandError → Part α} (h : ∀ e, Raises E (handler e)) :
    Raises E (tryCatch x handler) := by
  intro s e s' hRun
  change (ExceptT.tryCatch x handler) s = _ at hRun
  simp only [ExceptT.tryCatch, ExceptT.mk, bind, StateT.bind] at hRun
  rcases hFirst : x s with ⟨e' | a, s₁⟩
  · rw [hFirst] at hRun
    exact h e' s₁ e s' hRun
  · rw [hFirst] at hRun
    exact absurd (Prod.mk.inj hRun).1 (by simp)

end Raises

end Part

namespace Surroundings

variable {e : Surroundings} {config : Option String} {a : ConvertArguments} {s' : Session}
  {error : CommandError} {output : String}

theorem reads_settings (e : Surroundings) (config registry : Option String) :
    Part.Reads (e.settings config registry) :=
  (Part.reads_ask _).bind fun _ => Part.reads_pure _

theorem reads_enter (e : Surroundings) (config : Option String) (a : ConvertArguments) :
    Part.Reads (e.enter config a) := by
  refine (reads_settings e config a.registry).bind fun s => ?_
  refine (Part.reads_ask _).bind fun _ => ?_
  refine (Part.reads_ask _).bind fun p => ?_
  exact (Part.reads_say _).bind fun _ => Part.reads_pure _

theorem raises_push (e : Surroundings) (s : Settings) (p : Compose.Project)
    (registry tag : String) (skipBuild : Bool) (seconds : Nat) :
    Raises (fun error => ¬ error.IsRefusal) (e.push s p registry tag skipBuild seconds) := by
  rw [push]
  exact Part.raises_act not_isRefusal_tool _

theorem raises_checkPushed (r : PushReport) :
    Raises (fun error => ¬ error.IsRefusal) (checkPushed r) := by
  intro s error s' h
  rw [checkPushed] at h
  split at h
  · rw [← Except.error.inj (Prod.mk.inj h).1]
    simp [CommandError.IsRefusal, CommandError.failureClass]
  · exact absurd (Prod.mk.inj h).1 (by simp)

/-- After a conversion nothing is refused any more. -/
theorem raises_conclude (e : Surroundings) (s : Settings) (p : Compose.Project)
    (a : ConvertArguments) (conversion : ConversionReport) :
    Raises (fun error => ¬ error.IsRefusal) (e.conclude s p a conversion) := by
  refine Raises.bind ?_ fun images => Raises.bind ?_ fun validation =>
    (Part.raises_say _).bind fun _ => ?_
  · rw [imagesOf]
    split
    · split
      · exact (raises_push e s p _ a.tag a.skipBuild a.seconds).map
      · exact raises_pure _
    · exact raises_pure _
  · rw [validationOf]
    split
    · exact Part.raises_tryCatch fun _ => raises_pure _
    · exact raises_pure _
  · split
    · exact raises_checkPushed _
    · exact raises_pure _

section Kompose

variable {s : Settings} {o : ConvertOptions} {p : Compose.Project} {s₁ : Session}

/-- A conversion by kompose that is refused has changed nothing, unless the path of its directory is
too long to be made. Then kompose has run, but nothing was done before and after it. -/
theorem of_convertByKompose_eq_error (hNonempty : a.directory ≠ "")
    (hLeaves : ∀ copied v,
      (prepareDirectory a.directory >>= fun _ => copyVariables p a.directory) s₁.workspace =
        (.ok copied, v) →
      v.isDirectory a.directory = true → (e.callKompose s p a v).2.isDirectory a.directory = true)
    (h : e.convertByKompose s o p a s₁ = (.error error, s')) (hRefusal : error.IsRefusal) :
    s'.workspace = s₁.workspace ∨ Path.lengthLimit < a.directory.utf8ByteSize ∧
      s'.workspace = (e.callKompose s p a s₁.workspace).2 := by
  rw [convertByKompose] at h
  rcases Action.of_bind_eq_error h with hName | ⟨name, s₂, hName, hMaking⟩
  · exact .inl ((Part.reads_ask _).of_eq hName)
  rw [← (Part.reads_ask _).of_eq hName] at hLeaves ⊢
  rcases Action.of_bind_eq_error hMaking with hMade | ⟨_, s₃, hMade, hCopying⟩
  · obtain ⟨cause, rfl, hError⟩ := Part.of_act_eq_error hMade
    have hEarly := not_isLate_of_isRefusal hRefusal
    exact .inl ((of_prepareDirectory_eq_error hError).resolve_left hEarly)
  rcases Action.of_bind_eq_error hCopying with hCopy | ⟨copied, s₄, hCopy, hCalling⟩
  · obtain ⟨cause, rfl, hError⟩ := Part.of_act_eq_error hCopy
    have hEarly := not_isLate_of_isRefusal hRefusal
    exact absurd (isLate_of_copyVariables p a.directory _ _ _ hError) hEarly
  rcases Action.of_bind_eq_error hCalling with hCall | ⟨_, s₅, hCall, hRevising⟩
  · obtain ⟨cause, rfl, -⟩ := Part.of_act_eq_error hCall
    exact absurd hRefusal (not_isRefusal_tool cause)
  rcases Action.of_bind_eq_error hRevising with hRevise | ⟨report, s₆, -, hEnd⟩
  · obtain ⟨cause, rfl, hError⟩ := Part.of_act_eq_error hRevise
    obtain ⟨-, hMissing, hSame⟩ := of_revise_eq_error hError
    have hPreparing := Part.of_act_eq_ok hMade
    have hPrepared := keeps_prepared_copyVariables (p := p) hNonempty _
      (prepared_prepareDirectory hNonempty hPreparing)
    rw [Part.of_act_eq_ok hCopy] at hPrepared
    have hLeft := hLeaves copied s₄.workspace
      (by rw [Action.bind_of_ok hPreparing, Part.of_act_eq_ok hCopy])
    rw [Part.of_act_eq_ok hCall, hMissing] at hLeft
    -- kompose left the directory, so it was not there before
    rcases hPrepared with hThere | ⟨hUntouched, hLong⟩
    · exact absurd (hLeft hThere) (by simp)
    · refine .inr ⟨hLong, ?_⟩
      rw [← hUntouched, Part.of_act_eq_ok hCall, hSame]
  · rcases Action.of_bind_eq_error hEnd with hAsk | ⟨_, _, -, hPure⟩
    · exact absurd (Prod.mk.inj hAsk).1 (by simp)
    · exact absurd (Prod.mk.inj hPure).1 (by simp)

end Kompose

/-! ### Commands -/

/-- Whether kompose, where the arguments call it, leaves the directory that was prepared for it. -/
def KomposeLeaves (e : Surroundings) (arguments : List String) (w : Workspace) : Prop :=
  ∀ r a s p s₁ copied v, Request.ofArguments arguments = .ok r → r.command = .convert a →
    a.useKompose = true → e.enter r.config a ⟨w, ""⟩ = (.ok (s, p), s₁) →
    (prepareDirectory a.directory >>= fun _ => copyVariables p a.directory) w = (.ok copied, v) →
    v.isDirectory a.directory = true → (e.callKompose s p a v).2.isDirectory a.directory = true

/-- A workspace as it was found, or as kompose left it that was called in the one that was found:
the directory that was asked for has a path that is too long to be made. -/
def Untouched (e : Surroundings) (arguments : List String) (w v : Workspace) : Prop :=
  v = w ∨ ∃ r a s p, Request.ofArguments arguments = .ok r ∧ r.command = .convert a ∧
    a.useKompose = true ∧ Path.lengthLimit < a.directory.utf8ByteSize ∧
      v = (e.callKompose s p a w).2

section Commands

variable {r : Request} {arguments : List String}

theorem untouched_of_convert_eq_error (hRequest : Request.ofArguments arguments = .ok r)
    (hCommand : r.command = .convert a) (hKompose : e.KomposeLeaves arguments w)
    (h : e.convert r.config a ⟨w, ""⟩ = (.error error, s')) (hRefusal : error.IsRefusal) :
    e.Untouched arguments w s'.workspace := by
  have hNonempty := directory_ne_empty hRequest hCommand
  rcases Action.of_bind_eq_error h with hEnter | ⟨⟨s, p⟩, s₁, hEnter, hMaking⟩
  · exact .inl ((reads_enter e r.config a).of_eq hEnter)
  have hSame : s₁.workspace = w := (reads_enter e r.config a).of_eq hEnter
  rcases Action.of_bind_eq_error hMaking with hMake | ⟨conversion, s₂, -, hConclude⟩
  · rw [makeManifests] at hMake
    split at hMake
    · rename_i hUse
      have hLeaves := fun copied v => hKompose r a s p s₁ copied v hRequest hCommand hUse hEnter
      rw [← hSame] at hLeaves
      rcases of_convertByKompose_eq_error hNonempty hLeaves hMake hRefusal with
        hLeft | ⟨hLong, hLeft⟩
      · exact .inl (hLeft.trans hSame)
      · exact .inr ⟨r, a, s, p, hRequest, hCommand, hUse, hLong, hSame ▸ hLeft⟩
    · obtain ⟨cause, rfl, hError⟩ := Part.of_act_eq_error hMake
      exact .inl ((unchanged_of_convert_eq_error (not_isLate_of_isRefusal hRefusal)
        (fun _ => hNonempty) hError).trans hSame)
  · exact absurd hRefusal (raises_conclude e s p a conversion _ _ _ hConclude)

theorem unchanged_of_pushCommand_eq_error {b : PushArguments}
    (h : e.pushCommand config b ⟨w, output⟩ = (.error error, s')) (hRefusal : error.IsRefusal) :
    s'.workspace = w := by
  rw [pushCommand] at h
  rcases Action.of_bind_eq_error h with hSettings | ⟨s, s₁, hSettings, hRest⟩
  · exact (reads_settings e config b.registry).of_eq hSettings
  have hSame : s₁.workspace = w := (reads_settings e config b.registry).of_eq hSettings
  rw [← hSame]
  cases hRegistry : s.pushRegistry? with
  | none =>
    rw [hRegistry] at hRest
    exact (Part.reads_throw _).of_eq hRest
  | some registry =>
    rw [hRegistry] at hRest
    rcases Action.of_bind_eq_error hRest with hLoad | ⟨p, s₂, hLoad, hPushing⟩
    · exact (Part.reads_ask _).of_eq hLoad
    have hLate : Raises (fun error => ¬ error.IsRefusal) (do
        Part.say (if b.json then "" else Summary.header "Image push" p.path registry)
        let r ← e.push s p registry b.tag b.skipBuild b.seconds
        Part.say (if b.json then r.report.line else Summary.push r)
        checkPushed r) :=
      (Part.raises_say _).bind fun _ =>
        (raises_push e s p registry b.tag b.skipBuild b.seconds).bind
        fun r => (Part.raises_say _).bind fun _ => raises_checkPushed r
    exact absurd hRefusal (hLate _ _ _ hPushing)

theorem unchanged_of_validateCommand_eq_error {b : ValidateArguments}
    (h : e.validateCommand config b ⟨w, output⟩ = (.error error, s'))
    (hRefusal : error.IsRefusal) : s'.workspace = w := by
  rw [validateCommand] at h
  rcases Action.of_bind_eq_error h with hAsk | ⟨_, s₁, hAsk, hEntering⟩
  · exact (Part.reads_ask _).of_eq hAsk
  have hSame : s₁.workspace = w := (Part.reads_ask _).of_eq hAsk
  rw [← hSame]
  rcases Action.of_bind_eq_error hEntering with hSettings | ⟨s, s₂, hSettings, hJudging⟩
  · exact (reads_settings e config none).of_eq hSettings
  have hLate : Raises (fun error => ¬ error.IsRefusal) (do
      let verdicts ← e.verdicts ((Kubectl.ofSettings s).withContext b.context) b.seconds b.directory
      Part.say (Summary.validation verdicts)
      let refused := verdicts.countP fun v => !v.isValid
      if refused != 0 then throw (.manifestsRefused refused verdicts.length)) := by
    refine Raises.bind ?_ fun verdicts => (Part.raises_say _).bind fun _ => ?_
    · rw [Surroundings.verdicts]
      exact Part.raises_act not_isRefusal_tool _
    · intro s₃ error s₄ hError
      simp only at hError
      split at hError
      · rw [← Except.error.inj (Prod.mk.inj hError).1]
        simp [CommandError.IsRefusal, CommandError.failureClass]
      · exact absurd (Prod.mk.inj hError).1 (by simp)
  exact absurd hRefusal (hLate _ _ _ hJudging)

theorem untouched_of_perform_eq_error (hRequest : Request.ofArguments arguments = .ok r)
    (hKompose : e.KomposeLeaves arguments w) (h : e.perform r ⟨w, ""⟩ = (.error error, s'))
    (hRefusal : error.IsRefusal) : e.Untouched arguments w s'.workspace := by
  rw [perform] at h
  cases hCommand : r.command with
  | convert a =>
    rw [hCommand] at h
    exact untouched_of_convert_eq_error hRequest hCommand hKompose h hRefusal
  | push b =>
    rw [hCommand] at h
    exact .inl (unchanged_of_pushCommand_eq_error h hRefusal)
  | validate b =>
    rw [hCommand] at h
    exact .inl (unchanged_of_validateCommand_eq_error h hRefusal)

end Commands

end Surroundings

/-- A command that ends with the status of a bad input or of a bad usage has changed nothing; nor
has a conversion for which the services or the namespace have no names, or whose variables cannot be
read. -/
theorem untouched_of_refused (e : Surroundings) (arguments : List String) (w : Workspace)
    (hKompose : e.KomposeLeaves arguments w) :
    ((run e arguments w).1.status = 2 ∨ (run e arguments w).1.status = 64 →
      e.Untouched arguments w (run e arguments w).2) ∧
    ∀ (settings : Settings) (options : ConvertOptions) (p : Compose.Project) (directory : String)
      (v : Workspace),
      (∀ cause, KubeCompose.convert settings options p directory w = (.error (.name cause), v) →
        v = w) ∧
      ∀ cause, p.dotEnv w = .error cause →
        KubeCompose.convert settings options p directory w = (.error (.file cause), w) := by
  refine ⟨fun hStatus => ?_, fun settings options p directory v =>
    ⟨fun cause hError => ?_, fun cause hVars => ?_⟩⟩
  · cases hRequest : Request.ofArguments arguments with
    | error stop =>
      rw [run, hRequest]
      exact .inl rfl
    | ok r =>
      rcases hPerform : e.perform r ⟨w, ""⟩ with ⟨error | _, s⟩
      · rw [run, hRequest] at hStatus ⊢
        simp only [hPerform] at hStatus ⊢
        exact Surroundings.untouched_of_perform_eq_error hRequest hKompose hPerform
          (CommandError.isRefusal_iff.2 hStatus)
      · rw [run, hRequest] at hStatus
        simp [hPerform] at hStatus
  · exact unchanged_of_convert_eq_error (by simp [ConversionError.IsLate]) (by simp) hError
  · rw [convert_eq]
    exact Action.bind_of_error (by rw [Action.ask, hVars]; rfl)

/-! ### The beginning of a conversion -/

/-- A conversion whose output is a document begins without a word. -/
theorem Surroundings.enter_of_load {e : Surroundings} {a : ConvertArguments} {s : Settings}
    {p : Compose.Project} (hSettings : e.settings none a.registry ⟨w, ""⟩ = (.ok s, ⟨w, ""⟩))
    (hRegistry : (a.pushImages && s.pushRegistry?.isNone) = false)
    (hLoad : Compose.Project.load w a.project = .ok p) (hJson : a.json = true) :
    e.enter none a ⟨w, ""⟩ = (.ok (s, p), ⟨w, ""⟩) := by
  have hAsk : Part.ask (fun w => (Compose.Project.load w a.project).mapError .project) ⟨w, ""⟩ =
      (.ok p, ⟨w, ""⟩) := by
    rw [Part.ask, hLoad]
    rfl
  refine (Action.bind_of_ok hSettings).trans ?_
  refine (Action.bind_of_ok (v := Session.mk w "") (a := ()) ?_).trans ?_
  · rw [hRegistry]
    rfl
  · refine (Action.bind_of_ok hAsk).trans ?_
    rw [hJson]
    rfl

/-! ### A directory whose name is taken -/

theorem parseServices_bare : Compose.parseServices "services: \x7b\x7d\n" = .ok [] := by
  have hParse : Yaml.parse "services: \x7b\x7d\n" = .ok bareDocument := by decide +kernel
  rw [Compose.parseServices, hParse]
  rfl

/-- Surroundings without variables, in which no program is found. -/
def bareSurroundings : Surroundings := ⟨fun _ => none, fun _ _ w => (.error .notFound, w)⟩

/-- The entries of a home with a project file, and with a file where a directory is to be made. -/
def takenEntries : List (String × Entry) :=
  [("docker-compose.yml", .file "services: \x7b\x7d\n".toUTF8 false), ("out", .file .empty false)]

def takenHome : Workspace := homeWith takenEntries

theorem prepareDirectory_takenHome :
    prepareDirectory "out" takenHome = (.error (.notDirectory "out"), takenHome) := by
  have hPlace : takenHome.place "out" true = .ok (.present ["home", "out"] (.file .empty false)) :=
    place_homeWith isName_out rfl (by simp) true
  have hThere : takenHome.exists? "out" = true := by
    rw [Workspace.exists?, Workspace.entryAt, hPlace]
    rfl
  have hNo : takenHome.isDirectory "out" = false := by
    rw [Workspace.isDirectory, Workspace.entryAt, hPlace]
  rw [prepareDirectory, if_pos (by rw [hThere, hNo]; rfl)]

/-- The arguments that ask kompose to convert the project in the home. -/
def takenArguments : List String := ["convert", "docker-compose.yml", "-o", "out", "-k", "--json"]

/-- What these arguments ask for. -/
def takenConversion : ConvertArguments where
  project := "docker-compose.yml"
  directory := "out"
  «namespace» := none
  registry := none
  tag := "latest"
  useKompose := true
  pushImages := false
  daemonServices := []
  skipBuild := false
  validate := false
  seconds := 600
  json := true

theorem enter_takenHome :
    bareSurroundings.enter none takenConversion ⟨takenHome, ""⟩ =
      (.ok (.standard, bareProject), ⟨takenHome, ""⟩) :=
  Surroundings.enter_of_load rfl rfl (load_homeWith rfl parseServices_bare) rfl

theorem run_takenHome :
    run bareSurroundings takenArguments takenHome =
      (⟨2, "", some (.conversion (.notDirectory "out"))⟩, takenHome) := by
  have hRequest : Request.ofArguments takenArguments = .ok ⟨none, .convert takenConversion⟩ := rfl
  have hPrepare : Part.act .conversion (prepareDirectory "out") ⟨takenHome, ""⟩ =
      (.error (.conversion (.notDirectory "out")), ⟨takenHome, ""⟩) := by
    rw [Part.act, prepareDirectory_takenHome]
    rfl
  have hConvert : bareSurroundings.convert none takenConversion ⟨takenHome, ""⟩ =
      (.error (.conversion (.notDirectory "out")), ⟨takenHome, ""⟩) := by
    refine (Action.bind_of_ok enter_takenHome).trans (Action.bind_of_error ?_)
    refine (Action.bind_of_ok (v := Session.mk takenHome "") (a := "default") rfl).trans ?_
    exact Action.bind_of_error hPrepare
  rw [run, hRequest]
  simp only [Surroundings.perform, hConvert]
  rfl

/-- A conversion by kompose into what is a file is refused and changes nothing. -/
theorem untouched_takenHome :
    (run bareSurroundings takenArguments takenHome).1.status = 2 ∧
      bareSurroundings.Untouched takenArguments takenHome
        (run bareSurroundings takenArguments takenHome).2 := by
  have hStatus : (run bareSurroundings takenArguments takenHome).1.status = 2 := by
    rw [run_takenHome]
  have hLeaves : bareSurroundings.KomposeLeaves takenArguments takenHome := by
    intro r a s p s₁ copied v _ _ _ _ _ hThere
    have hSame : (bareSurroundings.callKompose s p a v).2 = v := by
      rw [Surroundings.callKompose, Kompose.convert]
      split
      · rw [Launcher.run]
        split <;> rfl
      · rfl
    rw [hSame, hThere]
  exact ⟨hStatus, (untouched_of_refused bareSurroundings takenArguments takenHome hLeaves).1
    (.inl hStatus)⟩

end CommandLine

end KubeCompose
