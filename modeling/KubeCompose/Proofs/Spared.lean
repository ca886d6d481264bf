import KubeCompose.Engine.Docker
import KubeCompose.Proofs.PushProtocol
import KubeCompose.Proofs.Workspace
import KubeCompose.Tool.Manifests

/-!
# What programs leave alone

Images are pushed and manifests are validated by calling programs, and by nothing else. So what the
programs leave alone stays as it is, whatever they answer and however they end.
-/

namespace KubeCompose

open Compose (Project Service)

/-! ### What is seen of the world -/

/-- What stands at a location and below it, by the way from there. -/
def Workspace.below (w : Workspace) (l : Location) : Location → Option Entry :=
  fun k => w.files.look? (l ++ k)

section Preserves

variable {σ τ β ε α γ : Type} {view : σ → β}

/-- Whether what is seen of the world stays the same. -/
def Preserves (view : σ → β) (f : σ → α × σ) : Prop := ∀ s, view (f s).2 = view s

theorem Preserves.of_eq {f : σ → α × σ} {a : α} {s s' : σ} (h : Preserves view f)
    (hEq : f s = (a, s')) : view s' = view s := by
  have hSame := h s
  rwa [hEq] at hSame

section Sequence

variable {x : ExceptT ε (StateM σ) α} {f : α → ExceptT ε (StateM σ) γ}

theorem preserves_pure (a : α) : Preserves view (pure a : ExceptT ε (StateM σ) α) := fun _ => rfl

theorem Preserves.bind (hx : Preserves view x) (hf : ∀ a, Preserves view (f a)) :
    Preserves view (x >>= f) := by
  intro s
  rcases hFirst : x s with ⟨e | a, s₁⟩
  · rw [Action.bind_of_error hFirst]
    exact hx.of_eq hFirst
  · rw [Action.bind_of_ok hFirst]
    exact ((hf a) s₁).trans (hx.of_eq hFirst)

theorem Preserves.map {g : α → γ} (hx : Preserves view x) : Preserves view (g <$> x) := by
  rw [map_eq_pure_bind]
  exact hx.bind fun a => preserves_pure (g a)

theorem map_apply (g : α → γ) (x : ExceptT ε (StateM σ) α) (s : σ) :
    (g <$> x) s = ((x s : Except ε α × σ).1.map g, (x s).2) := by
  rw [map_eq_pure_bind]
  rcases hRun : (x s : Except ε α × σ) with ⟨e | a, s'⟩
  · exact Action.bind_of_error hRun
  · exact Action.bind_of_ok hRun

theorem tryCatch_eq (x : ExceptT ε (StateM σ) α) (handler : ε → ExceptT ε (StateM σ) α) (s : σ) :
    tryCatch x handler s =
      match (x s : Except ε α × σ) with
      | (.ok a, s') => (.ok a, s')
      | (.error e, s') => handler e s' := by
  have hBind : tryCatch x handler s =
      (fun r : Except ε α × σ =>
        (match r.1 with
          | .ok a => pure (.ok a)
          | .error e => handler e : StateM σ (Except ε α)) r.2) (x s) := rfl
  rw [hBind]
  rcases (x s : Except ε α × σ) with ⟨e | a, s'⟩ <;> rfl

theorem Preserves.tryCatch {handler : ε → ExceptT ε (StateM σ) α} (hx : Preserves view x)
    (hHandler : ∀ e, Preserves view (handler e)) : Preserves view (tryCatch x handler) := by
  intro s
  rw [tryCatch_eq]
  rcases hFirst : x s with ⟨e | a, s₁⟩
  · exact (hHandler e s₁).trans (hx.of_eq hFirst)
  · exact hx.of_eq hFirst

end Sequence

end Preserves

section Programs

variable {σ β : Type} {view : σ → β} {launch : Launcher σ} {limit : Limit} {program : String}

theorem Launcher.preserves_run {i : Invocation} (h : Preserves view (launch i limit)) :
    Preserves view (launch.run limit i) := by
  intro s
  rw [run]
  split
  · rfl
  · split
    all_goals
      rename_i hLaunch
      exact h.of_eq hLaunch

namespace Engine

variable {e : Engine σ} {α : Type}

/-- Whether all calls of an engine leave what is seen of the world. -/
def Spares (e : Engine σ) (view : σ → β) : Prop := ∀ c, Preserves view (e.call c)

theorem Spares.inTurn (h : e.Spares view) (a : α) (calls : List EngineCall) :
    Preserves view (e.inTurn a calls) := by
  induction calls with
  | nil => exact fun _ => rfl
  | cons c rest ih =>
    intro s
    rw [Engine.inTurn]
    split
    · rename_i hCall
      exact (ih _).trans ((h c).of_eq hCall)
    · rename_i hCall
      exact (h c).of_eq hCall

theorem preserves_outcome {calls : Calls σ String} (h : Preserves view calls) :
    Preserves view (outcome calls) := by
  intro s
  rw [outcome]
  split
  all_goals
    rename_i hCalls
    exact h.of_eq hCalls

theorem Spares.runTask (h : e.Spares view) (target : String) (task : PushTask) :
    Preserves view (e.runTask target task) := by
  intro s
  cases task with
  | skip reason => rfl
  | build dockerfile context =>
    rw [Engine.runTask]
    split
    · exact preserves_outcome (h.inTurn _ _) s
    · rfl
  | rename image =>
    rw [Engine.runTask]
    split
    · rename_i hCall
      exact (preserves_outcome (h.inTurn _ _) _).trans ((h _).of_eq hCall)
    · rename_i hCall
      exact (h _).of_eq hCall

theorem Spares.pushServices (h : e.Spares view) (o : PushOptions) (p : Project)
    (services : List Service) : Preserves view (e.pushServices o p services) := by
  induction services with
  | nil => exact fun _ => rfl
  | cons service rest ih =>
    intro s
    simp only [Engine.pushServices, pushService_eq_runTask]
    exact (ih _).trans (h.runTask _ _ s)

/-- A push leaves what all calls of its engine leave. -/
theorem Spares.push (h : e.Spares view) (o : PushOptions) (p : Project) :
    Preserves view (e.push o p) := by
  intro s
  rw [Engine.push]
  split
  · exact h.pushServices o p _ s
  · split
    · rename_i hLogin
      exact (h _).of_eq hLogin
    · rename_i hLogin
      exact (h _ _).trans ((h.pushServices o p _ _).trans ((h _).of_eq hLogin))

end Engine

theorem Docker.invocation_program (program : String) (c : EngineCall) :
    (invocation program c).program = program := by
  cases c <;> rfl

theorem Docker.spares_engine {isFile : String → σ → Bool}
    (h : ∀ c, Preserves view (launch (invocation program c) limit)) :
    (engine launch isFile limit program).Spares view :=
  fun c s => Launcher.preserves_run (h c) s

namespace Kubectl

variable {k : Kubectl}
  (h : ∀ i : Invocation, i.program = k.program → Preserves view (launch i limit))
include h

theorem preserves_version : Preserves view (k.version launch limit) := by
  intro s
  rw [version]
  split
  all_goals
    rename_i hRun
    exact (Launcher.preserves_run (h _ rfl)).of_eq hRun

theorem preserves_judge (manifest : String) : Preserves view (k.judge launch limit manifest) := by
  intro s
  rw [judge]
  split
  all_goals
    rename_i hRun
    exact (Launcher.preserves_run (h _ rfl)).of_eq hRun

theorem preserves_judgeAll (manifests : List String) :
    Preserves view (k.judgeAll launch limit manifests) := by
  induction manifests with
  | nil => exact fun _ => rfl
  | cons manifest rest ih =>
    intro s
    rw [judgeAll]
    exact (ih _).trans (preserves_judge h manifest s)

/-- A validation leaves what all calls of kubectl leave. -/
theorem preserves_validate (manifests : σ → List String) :
    Preserves view (k.validate launch limit manifests) := by
  intro s
  rw [validate]
  split
  · rename_i hVersion
    exact (preserves_version h).of_eq hVersion
  · rename_i hVersion
    exact (preserves_judgeAll h _ _).trans ((preserves_version h).of_eq hVersion)

end Kubectl

end Programs

end KubeCompose
