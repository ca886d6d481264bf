import KubeCompose.Proofs.Commands
import KubeCompose.Proofs.Distinct
import KubeCompose.Proofs.Spared

/-!
# What follows on a conversion

Images are pushed and manifests are validated after a conversion. What docker and kubectl leave
alone is in the end as the conversion left it. What became of the images decides how the command
ends; what kubectl says does not.
-/

namespace KubeCompose

open Compose (Project)
open Workspace (homeWith)

/-! ### What a push comes to -/

theorem PushReport.isSuccess_iff (r : PushReport) :
    r.isSuccess = true ↔ ∀ x ∈ r.services, x.2.isFailed = false := by
  rw [isSuccess, failed, count, beq_iff_eq, List.countP_eq_zero]
  simp

namespace Engine

variable {σ : Type} (e : Engine σ) (o : PushOptions) (p : Project) (s : σ)

/-- The login of a push, where there are credentials for one. -/
def login : Except ToolError Bool × σ :=
  match o.credentials with
  | none => (.ok true, s)
  | some (user, password) => e.call (.login (registryServer o.registry) user password) s

/-- What becomes of the services of a project once one is logged in. -/
def outcomes : List (String × PushOutcome) :=
  (e.pushServices o p (p.services.map (·.2)) (e.login o s).2).1

/-- Whether one can log in, where that is to be done, and nothing fails for any service. -/
structure Succeeds : Prop where
  login : (e.login o s).1.isOk = true
  services : ∀ x ∈ e.outcomes o p s, x.2.isFailed = false

/-- A push ends with the error of its login, or with what became of the services. -/
theorem fst_push :
    (e.push o p s).1 = (e.login o s).1.map fun _ => ⟨o.registry, e.outcomes o p s⟩ := by
  rw [push, outcomes, login]
  cases o.credentials with
  | none => rfl
  | some credentials =>
    simp only
    rcases e.call (.login (registryServer o.registry) credentials.1 credentials.2) s with
      ⟨_ | _, _⟩ <;> rfl

theorem succeeds_iff :
    e.Succeeds o p s ↔ ∃ r, (e.push o p s).1 = .ok r ∧ r.isSuccess = true := by
  rw [fst_push]
  cases hLogin : (e.login o s).1 with
  | error cause =>
    refine ⟨fun h => ?_, fun ⟨r, hr, _⟩ => by cases hr⟩
    have hFails := h.login
    rw [hLogin] at hFails
    cases hFails
  | ok answer =>
    refine ⟨fun h => ⟨_, rfl, (PushReport.isSuccess_iff _).2 h.services⟩, ?_⟩
    rintro ⟨r, hr, hSuccess⟩
    obtain rfl := Except.ok.inj hr
    exact ⟨by rw [hLogin]; rfl, (PushReport.isSuccess_iff _).1 hSuccess⟩

end Engine

namespace CommandLine

variable {β : Type} {view : Workspace → β} {w : Workspace}

/-- The same conversion with nothing that follows on it. -/
def ConvertArguments.plain (a : ConvertArguments) : ConvertArguments :=
  { a with pushImages := false, validate := false }

namespace Part

variable {ε α : Type} {x : Part α}

theorem preserves_act {wrap : ε → CommandError} {action : Workspace → Except ε α × Workspace}
    (h : Preserves view action) : Preserves (view ·.workspace) (act wrap action) :=
  fun s => h s.workspace

theorem act_of_eq {wrap : ε → CommandError} {action : Workspace → Except ε α × Workspace}
    {result : Except ε α} {v : Workspace} (h : action w = (result, v)) (output : String) :
    act wrap action ⟨w, output⟩ = (result.mapError wrap, ⟨v, output⟩) := by
  rw [act, h]

theorem Reads.preserves (h : Reads x) : Preserves (view ·.workspace) x :=
  fun s => congrArg view (h s)

end Part

namespace Surroundings

variable {e : Surroundings} {config : Option String} {a : ConvertArguments} {s : Settings}
  {p : Project} {s₁ : Session}

theorem checkPushed_eq (r : PushReport) (s₁ : Session) :
    checkPushed r s₁ =
      (if r.isSuccess then .ok () else .error (.imagesFailed r.failed r.services.length), s₁) := by
  rw [checkPushed]
  cases r.isSuccess <;> rfl

/-- Whether docker and kubectl, as the settings name them, leave what is seen of a workspace. -/
def Spares (e : Surroundings) (s : Settings) (view : Workspace → β) : Prop :=
  ∀ (i : Invocation) (limit : Limit),
    i.program = s.programs.docker ∨ i.program = s.programs.kubectl →
      Preserves view (e.launch i limit)

theorem Spares.imagesOf (h : e.Spares s view) (p : Project) (a : ConvertArguments) :
    Preserves (view ·.workspace) (e.imagesOf s p a) := by
  rw [Surroundings.imagesOf]
  split
  · split
    · refine Preserves.map (Part.preserves_act (Engine.Spares.push ?_ _ p))
      refine Docker.spares_engine fun c => h _ _ (.inl (Docker.invocation_program _ c))
    · exact preserves_pure _
  · exact preserves_pure _

theorem Spares.validationOf (h : e.Spares s view) (a : ConvertArguments) :
    Preserves (view ·.workspace) (e.validationOf s a) := by
  rw [Surroundings.validationOf]
  split
  · refine Preserves.tryCatch (Preserves.map (Part.preserves_act ?_)) fun _ => preserves_pure _
    exact Kubectl.preserves_validate (fun i hi => h i _ (.inr hi)) _
  · exact preserves_pure _

/-- What follows on a conversion leaves what docker and kubectl leave. -/
theorem Spares.conclude (h : e.Spares s view) (p : Project) (a : ConvertArguments)
    (conversion : ConversionReport) :
    Preserves (view ·.workspace) (e.conclude s p a conversion) := by
  refine (h.imagesOf p a).bind fun images => (h.validationOf a).bind fun validation => ?_
  refine (Part.reads_say _).preserves.bind fun _ => ?_
  cases images with
  | none => exact preserves_pure _
  | some r =>
    exact fun s₁ => congrArg (fun ended => view ended.2.workspace) (checkPushed_eq r s₁)

/-- A validation has a result, though it may be that there was none. -/
theorem exists_validationOf (e : Surroundings) (s : Settings) (a : ConvertArguments)
    (s₁ : Session) : ∃ validation s₂, e.validationOf s a s₁ = (.ok validation, s₂) := by
  rw [validationOf]
  split
  · rw [tryCatch_eq]
    split
    · exact ⟨_, _, rfl⟩
    · exact ⟨none, _, rfl⟩
  · exact ⟨none, s₁, rfl⟩

/-- How a command ends whose images were pushed, or were not to be. -/
def imagesEnd (images : Except CommandError (Option PushReport)) : Except CommandError Unit :=
  images.bind fun images => match images with
    | some r => if r.isSuccess then .ok () else .error (.imagesFailed r.failed r.services.length)
    | none => .ok ()

/-- What became of the images decides how a command ends. -/
theorem fst_conclude (e : Surroundings) (s : Settings) (p : Project) (a : ConvertArguments)
    (conversion : ConversionReport) (s₁ : Session) :
    (e.conclude s p a conversion s₁).1 = imagesEnd (e.imagesOf s p a s₁).1 := by
  rw [conclude]
  rcases hImages : e.imagesOf s p a s₁ with ⟨error | images, s₂⟩
  · rw [Action.bind_of_error hImages]
    rfl
  · obtain ⟨validation, s₃, hValidation⟩ := e.exists_validationOf s a s₂
    have hSay : Part.say (closing a conversion images validation) s₃ =
        (.ok (), ⟨s₃.workspace, s₃.output ++ closing a conversion images validation⟩) := rfl
    rw [Action.bind_of_ok hImages, Action.bind_of_ok hValidation, Action.bind_of_ok hSay]
    cases images with
    | none => rfl
    | some r => exact congrArg Prod.fst (checkPushed_eq r _)

/-- The push that a conversion asks for. -/
def pushOptions (s : Settings) (a : ConvertArguments) (registry : String) : PushOptions :=
  ⟨registry, a.tag, a.skipBuild, s.registry.credentials?⟩

/-- The engine of a command. -/
def engine (e : Surroundings) (s : Settings) (a : ConvertArguments) : Engine Workspace :=
  Docker.engine e.launch (fun path w => w.isFile path) (limitOf a.seconds) s.programs.docker

theorem imagesOf_of_unasked (h : a.pushImages = false) (s₁ : Session) :
    e.imagesOf s p a s₁ = (.ok none, s₁) := by
  rw [imagesOf]
  cases s.pushRegistry? with
  | none => rfl
  | some registry =>
    rw [h]
    rfl

theorem fst_imagesOf {registry : String} (hAsked : a.pushImages = true)
    (hRegistry : s.pushRegistry? = some registry) (s₁ : Session) :
    (e.imagesOf s p a s₁).1 =
      (((e.engine s a).push (pushOptions s a registry) p s₁.workspace).1.mapError .tool).map
        some := by
  rw [imagesOf, hRegistry, hAsked]
  exact congrArg Prod.fst (map_apply _ _ s₁)

theorem imagesEnd_eq_ok_iff (images : Except CommandError (Option PushReport)) :
    imagesEnd images = .ok () ↔
      ∃ report?, images = .ok report? ∧ ∀ r ∈ report?, r.isSuccess = true := by
  cases images with
  | error error => simp [imagesEnd, Except.bind]
  | ok report? =>
    cases report? with
    | none => simp [imagesEnd, Except.bind]
    | some r => simp [imagesEnd, Except.bind]

theorem imagesEnd_imagesOf_eq_ok_iff (hRegistry : a.pushImages = true → s.pushRegistry?.isSome) :
    imagesEnd (e.imagesOf s p a s₁).1 = .ok () ↔
      (a.pushImages = true → ∃ registry, s.pushRegistry? = some registry ∧
        (e.engine s a).Succeeds (pushOptions s a registry) p s₁.workspace) := by
  rw [imagesEnd_eq_ok_iff]
  cases hAsked : a.pushImages with
  | false =>
    rw [imagesOf_of_unasked hAsked]
    simp
  | true =>
    obtain ⟨registry, hSome⟩ := Option.isSome_iff_exists.1 (hRegistry hAsked)
    have hPush := (e.engine s a).succeeds_iff (pushOptions s a registry) p s₁.workspace
    rw [fst_imagesOf hAsked hSome]
    simp only [hSome, Option.some.injEq, exists_eq_left', true_imp_iff, hPush]
    cases ((e.engine s a).push (pushOptions s a registry) p s₁.workspace).1 with
    | error cause => simp [Except.mapError, Except.map]
    | ok r => simp [Except.mapError, Except.map]

end Surroundings

/-! ### How a command ends -/

/-- The status for an end. -/
def statusOf : Except CommandError Unit → Nat
  | .ok () => 0
  | .error error => error.failureClass.status

theorem statusOf_eq_zero_iff (x : Except CommandError Unit) : statusOf x = 0 ↔ x = .ok () := by
  cases x with
  | ok => simp [statusOf]
  | error error =>
    cases hClass : error.failureClass <;> simp [statusOf, hClass, FailureClass.status]

theorem run_of_request {r : Request} {arguments : List String} (e : Surroundings)
    (h : Request.ofArguments arguments = .ok r) (w : Workspace) :
    (run e arguments w).1.status = statusOf (e.perform r ⟨w, ""⟩).1 ∧
      (run e arguments w).2 = (e.perform r ⟨w, ""⟩).2.workspace := by
  rw [run, h]
  rcases hPerform : e.perform r ⟨w, ""⟩ with ⟨error | _, s₁⟩
  · simp only [hPerform, statusOf, and_self]
  · simp only [hPerform, statusOf, and_self]

namespace Surroundings

variable {e e' : Surroundings} {config : Option String} {a : ConvertArguments} {s : Settings}
  {p : Project} {report : ConversionReport} {s₁ : Session} {v : Workspace}

/-- A conversion begins in the same way when nothing is to follow on it. -/
theorem enter_plain (h : e.enter config a ⟨w, ""⟩ = (.ok (s, p), s₁)) :
    e.enter config a.plain ⟨w, ""⟩ = (.ok (s, p), s₁) := by
  obtain ⟨s', s₂, hSettings, h⟩ := Action.of_bind_eq_ok h
  obtain ⟨_, s₃, hAsked, h⟩ := Action.of_bind_eq_ok h
  obtain rfl := (Prod.mk.inj hAsked).2
  exact (Action.bind_of_ok hSettings).trans ((Action.bind_of_ok (a := ()) rfl).trans h)

/-- Images are to be pushed only where there is a registry. -/
theorem isSome_pushRegistry? (h : e.enter config a ⟨w, ""⟩ = (.ok (s, p), s₁))
    (hAsked : a.pushImages = true) : s.pushRegistry?.isSome := by
  obtain ⟨s', s₂, hSettings, h⟩ := Action.of_bind_eq_ok h
  obtain ⟨_, s₃, hAsk, h⟩ := Action.of_bind_eq_ok h
  obtain ⟨p', s₄, -, h⟩ := Action.of_bind_eq_ok h
  obtain ⟨_, s₅, -, h⟩ := Action.of_bind_eq_ok h
  obtain rfl : s' = s := (Prod.mk.inj (Except.ok.inj (Prod.mk.inj h).1)).1
  have hRegistry := (Prod.mk.inj hAsk).1
  rw [hAsked, Bool.true_and] at hRegistry
  split at hRegistry
  · cases hRegistry
  · rename_i hThere
    rwa [Bool.not_eq_true, Option.isNone_eq_false_iff] at hThere

section Native

variable (hNative : a.useKompose = false) (hEnter : e.enter config a ⟨w, ""⟩ = (.ok (s, p), s₁))
include hNative hEnter

theorem perform_native :
    e.perform ⟨config, .convert a⟩ ⟨w, ""⟩ =
      (Part.act .conversion (KubeCompose.convert s (a.options s) p a.directory) >>=
        e.conclude s p a) s₁ := by
  have hMake : e.makeManifests s p a =
      Part.act .conversion (KubeCompose.convert s (a.options s) p a.directory) := by
    rw [makeManifests, hNative]
    rfl
  change e.convert config a ⟨w, ""⟩ = _
  rw [convert, Action.bind_of_ok hEnter, ← hMake]

/-- What docker and kubectl leave of a workspace is in the end as the conversion left it. -/
theorem view_perform (h : e.Spares s view) :
    view (e.perform ⟨config, .convert a⟩ ⟨w, ""⟩).2.workspace =
      view (KubeCompose.convert s (a.options s) p a.directory w).2 := by
  obtain ⟨w', output⟩ := s₁
  obtain rfl : w' = w := (reads_enter e config a).of_eq hEnter
  rw [perform_native hNative hEnter]
  rcases hConvert : KubeCompose.convert s (a.options s) p a.directory w' with ⟨cause | report, v⟩
  · rw [Action.bind_of_error (Part.act_of_eq hConvert output)]
  · rw [Action.bind_of_ok (Part.act_of_eq hConvert output)]
    exact h.conclude p a report ⟨v, output⟩

theorem fst_perform
    (hConvert : KubeCompose.convert s (a.options s) p a.directory w = (.ok report, v)) :
    (e.perform ⟨config, .convert a⟩ ⟨w, ""⟩).1 =
      imagesEnd (e.imagesOf s p a ⟨v, s₁.output⟩).1 := by
  obtain ⟨w', output⟩ := s₁
  obtain rfl : w' = w := (reads_enter e config a).of_eq hEnter
  rw [perform_native hNative hEnter, Action.bind_of_ok (Part.act_of_eq hConvert output)]
  exact fst_conclude e s p a report ⟨v, output⟩

end Native

/-- Surroundings that differ at most in programs that docker is not called for. -/
structure AgreesOnDocker (e e' : Surroundings) (s : Settings) : Prop where
  environment : e'.environment = e.environment
  launch : ∀ (c : EngineCall) (limit : Limit),
    e'.launch (Docker.invocation s.programs.docker c) limit =
      e.launch (Docker.invocation s.programs.docker c) limit

theorem AgreesOnDocker.enter (h : e.AgreesOnDocker e' s) (config : Option String)
    (a : ConvertArguments) : e'.enter config a = e.enter config a := by
  simp only [Surroundings.enter, settings, h.environment]

theorem AgreesOnDocker.engine (h : e.AgreesOnDocker e' s) (a : ConvertArguments) :
    e'.engine s a = e.engine s a := by
  rw [Surroundings.engine, Surroundings.engine, Docker.engine, Docker.engine]
  simp only [Launcher.run, h.launch]

theorem AgreesOnDocker.imagesOf (h : e.AgreesOnDocker e' s) (p : Project) (a : ConvertArguments) :
    e'.imagesOf s p a = e.imagesOf s p a := by
  have hPush : ∀ registry, e'.push s p registry a.tag a.skipBuild a.seconds =
      e.push s p registry a.tag a.skipBuild a.seconds := by
    intro registry
    change Part.act .tool ((e'.engine s a).push (pushOptions s a registry) p) = _
    rw [h.engine]
    rfl
  simp only [Surroundings.imagesOf, hPush]

end Surroundings

/-- Images that are pushed and manifests that are validated change no manifest. Where docker and
kubectl leave a directory alone, however they end, it is in the end as the conversion left it, and
so as it is without a push and a validation. When a conversion has succeeded, the command does so
exactly when one can log in to the registry, where that is to be done, and nothing fails for any
service; whatever kubectl says, it ends with the same status. -/
theorem unaffected_by_push_and_validation (e : Surroundings) {arguments : List String}
    {config : Option String} {a : ConvertArguments} {s : Settings} {p : Project} {s₁ : Session}
    (hRequest : Request.ofArguments arguments = .ok ⟨config, .convert a⟩)
    (hNative : a.useKompose = false) (hEnter : e.enter config a ⟨w, ""⟩ = (.ok (s, p), s₁)) :
    (∀ l : Location, e.Spares s (·.below l) →
      (run e arguments w).2.below l =
          (KubeCompose.convert s (a.options s) p a.directory w).2.below l ∧
        ∀ plain : List String, Request.ofArguments plain = .ok ⟨config, .convert a.plain⟩ →
          (run e arguments w).2.below l = (run e plain w).2.below l) ∧
    ∀ (report : ConversionReport) (v : Workspace),
      KubeCompose.convert s (a.options s) p a.directory w = (.ok report, v) →
      ((run e arguments w).1.status = 0 ↔
        (a.pushImages = true → ∃ registry, s.pushRegistry? = some registry ∧
          (e.engine s a).Succeeds (Surroundings.pushOptions s a registry) p v)) ∧
      ∀ e' : Surroundings, e.AgreesOnDocker e' s →
        (run e' arguments w).1.status = (run e arguments w).1.status := by
  constructor
  · intro l hSpares
    rw [(run_of_request e hRequest w).2, Surroundings.view_perform hNative hEnter hSpares]
    refine ⟨rfl, fun plain hPlain => ?_⟩
    have hEnterPlain := Surroundings.enter_plain hEnter
    rw [(run_of_request e hPlain w).2,
      Surroundings.view_perform (a := a.plain) hNative hEnterPlain hSpares]
    rfl
  · intro report v hConvert
    have hStatus : (run e arguments w).1.status =
        statusOf (Surroundings.imagesEnd (e.imagesOf s p a ⟨v, s₁.output⟩).1) := by
      rw [(run_of_request e hRequest w).1, Surroundings.fst_perform hNative hEnter hConvert]
    constructor
    · rw [hStatus, statusOf_eq_zero_iff]
      exact Surroundings.imagesEnd_imagesOf_eq_ok_iff (Surroundings.isSome_pushRegistry? hEnter)
    · intro e' hAgrees
      have hEnter' : e'.enter config a ⟨w, ""⟩ = (.ok (s, p), s₁) := by rw [hAgrees.enter, hEnter]
      rw [(run_of_request e' hRequest w).1, Surroundings.fst_perform hNative hEnter' hConvert,
        hAgrees.imagesOf, hStatus]

/-- Variables with a registry to log in to. -/
def loginVariables : Variables := fun name =>
  match name with
  | "REGISTRY_HOST" => some "registry.local"
  | "REGISTRY_USERNAME" => some "berth"
  | "REGISTRY_PASSWORD" => some "secret"
  | _ => none

/-- What these variables describe. -/
def loginSettings : Settings :=
  { Settings.standard with
    registry :=
      { Registry.standard with
        enabled := true
        host := "registry.local"
        username := some "berth"
        password := some "secret" } }

/-- Surroundings with these variables, in which docker succeeds and kubectl ends as given. -/
def dockerSurroundings (kubectl : Except FileError Finish) : Surroundings where
  environment := loginVariables
  launch i _ w :=
    (if i.program = "docker" then .ok ⟨.exited 0, .empty, .empty, 65536⟩ else kubectl, w)

theorem spares_dockerSurroundings (kubectl : Except FileError Finish) (s : Settings)
    {β : Type} (view : Workspace → β) : (dockerSurroundings kubectl).Spares s view :=
  fun _ _ _ _ => rfl

/-- A conversion of the project in the home that is followed by a push and a validation. -/
def pushConversion : ConvertArguments :=
  { takenConversion with
    useKompose := false
    pushImages := true
    validate := true }

theorem enter_webEntries (kubectl : Except FileError Finish) :
    (dockerSurroundings kubectl).enter none pushConversion ⟨homeWith webEntries, ""⟩ =
      (.ok (loginSettings, webProject), ⟨homeWith webEntries, ""⟩) :=
  Surroundings.enter_of_load rfl rfl load_webEntries rfl

/-- The plan of the web server whose image is in the registry. -/
def loginPlan : Plan :=
  ⟨.ofNamespace "default",
   [planService
     (workloadOf loginSettings (pushConversion.options loginSettings) [] "web" "default" nginx)]⟩

/-- The project in the home is converted. -/
theorem exists_convert_webEntries :
    ∃ report v, KubeCompose.convert loginSettings (pushConversion.options loginSettings) webProject
      "out" (homeWith webEntries) = (.ok report, v) := by
  have hSpace : Name.ofText (pushConversion.options loginSettings).namespace = .ok "default" := by
    decide
  have hNames : Name.assign (OrderedMap.keys webProject.services) = .ok [("web", "web")] := by
    decide
  have hPlan : planOf loginSettings (pushConversion.options loginSettings) webProject.services [] =
      .ok loginPlan := planOf_eq_ok hSpace hNames
  obtain ⟨report, -, -, -, u, -, -, -, -, hConvert⟩ :=
    convert_into_empty ⟨leadsTo_webEntries, rfl⟩ (dotEnv_homeWith (by decide) rfl) hPlan
      (by decide +kernel)
  exact ⟨report, _, hConvert⟩

/-- What is reported of the push. -/
def webReport : PushReport :=
  ⟨"registry.local:5000", [("web", .pushed "registry.local:5000/nginx:latest")]⟩

/-- The image of the web server is pushed, whatever the workspace is. -/
theorem push_dockerSurroundings (kubectl : Except FileError Finish) (v : Workspace) :
    (((dockerSurroundings kubectl).engine loginSettings pushConversion).push
      (Surroundings.pushOptions loginSettings pushConversion webReport.registry) webProject v).1 =
        .ok webReport := by
  with_unfolding_all rfl

/-- The arguments of this conversion, and those without a push and a validation. -/
def pushingArguments : List String :=
  ["convert", "docker-compose.yml", "-o", "out", "--json", "-p", "--validate"]

def plainArguments : List String := ["convert", "docker-compose.yml", "-o", "out", "--json"]

/-- The image is pushed, and the command succeeds whatever becomes of kubectl. Where kubectl is not
found, the directory is as it is without a push and a validation. -/
theorem unaffected_webEntries :
    let e := dockerSurroundings (.error .notFound)
    ((e.engine loginSettings pushConversion).push
        (Surroundings.pushOptions loginSettings pushConversion webReport.registry) webProject
        (homeWith webEntries)).1 = .ok webReport ∧
      (run e pushingArguments (homeWith webEntries)).2.below ["home", "out"] =
        (run e plainArguments (homeWith webEntries)).2.below ["home", "out"] ∧
      ∀ kubectl, (run (dockerSurroundings kubectl) pushingArguments
        (homeWith webEntries)).1.status = 0 := by
  have hRequest : Request.ofArguments pushingArguments = .ok ⟨none, .convert pushConversion⟩ := rfl
  have hPlain : Request.ofArguments plainArguments =
      .ok ⟨none, .convert pushConversion.plain⟩ := rfl
  intro e
  obtain ⟨hBelow, hStatus⟩ :=
    unaffected_by_push_and_validation e hRequest rfl (enter_webEntries _)
  obtain ⟨report, v, hConvert⟩ := exists_convert_webEntries
  obtain ⟨hIff, hOther⟩ := hStatus report v hConvert
  have hZero : (run e pushingArguments (homeWith webEntries)).1.status = 0 :=
    hIff.2 fun _ => ⟨webReport.registry, by decide,
      (Engine.succeeds_iff ..).2 ⟨webReport, push_dockerSurroundings _ v, by decide⟩⟩
  have hSame := (hBelow ["home", "out"] (spares_dockerSurroundings _ _ _)).2 plainArguments hPlain
  refine ⟨push_dockerSurroundings _ _, hSame, fun kubectl => ?_⟩
  rw [hOther (dockerSurroundings kubectl) ⟨rfl, fun c limit => ?_⟩, hZero]
  have hDocker : (Docker.invocation "docker" c).program = "docker" := Docker.invocation_program _ c
  funext w
  simp only [e, dockerSurroundings, loginSettings, Settings.standard, Programs.standard, hDocker]
  rfl

end CommandLine

end KubeCompose
