import KubeCompose.Proofs.Rereading
import KubeCompose.Settings.Step

/-!
# Steps that fail and steps that are repeated

A step that fails leaves the settings as they were, so only the steps that succeed matter in the
end. A document may be laid over settings twice in a row: the second time changes nothing.
-/

namespace KubeCompose.Settings

/-! ### Steps in place -/

variable {s t : Settings} {step : Step} {steps : List Step} {error : SettingsError}

/-- A document is laid over the settings in one go. -/
theorem overlayInPlace_eq (s : Settings) (text : String) :
    overlayInPlace text s =
      match s.overlayText text with
      | .ok t => (.ok (), t)
      | .error e => (.error e, s) := by
  rw [overlayText, overlayInPlace]
  cases Yaml.parse text with
  | error e => rfl
  | ok document =>
    cases document with
    | map entries =>
      simp only [overlay]
      change ((ExceptT.mk (pure ((decode (s.toYaml.merge (.map entries))).mapError .badOverlay)) >>=
        fun read => set (if namesHost (.map entries) then read.switchedOn else read) :
          InPlace Unit)) s = _
      cases decode (s.toYaml.merge (.map entries)) with
      | error e => rfl
      | ok m => rfl
    | _ => rfl

theorem registryUrlInPlace_eq (s : Settings) (url : String) :
    registryUrlInPlace url s = (.ok (), s.withRegistryUrl url) := rfl

/-- What a step makes of settings. -/
def Step.made (step : Step) (s : Settings) : Except SettingsError Settings :=
  match step with
  | overlay text => s.overlayText text
  | registryUrl url => .ok (s.withRegistryUrl url)

/-- A step puts what it makes in the place of the settings, or leaves them. -/
theorem Step.take_eq (step : Step) (s : Settings) :
    step.take s =
      match step.made s with
      | .ok t => (.ok (), t)
      | .error e => (.error e, s) := by
  cases step with
  | overlay text => exact overlayInPlace_eq s text
  | registryUrl url => exact registryUrlInPlace_eq s url

theorem Step.eq_of_take_error (h : step.take s = (.error error, t)) : t = s := by
  rw [take_eq] at h
  split at h
  · cases h
  · exact (Prod.mk.inj h).2.symm

/-- The steps that succeed do so also when no others are taken, and come to the same. -/
theorem takeAll_succeeding (s : Settings) (steps : List Step) :
    (takeAll s (succeeding s steps)).2 = (takeAll s steps).2 ∧
      ∀ result ∈ (takeAll s (succeeding s steps)).1, result = .ok () := by
  induction steps generalizing s with
  | nil => exact ⟨rfl, by simp [succeeding, takeAll]⟩
  | cons step steps ih =>
    rw [succeeding, takeAll]
    cases hTake : step.take s with
    | mk result t =>
      obtain ⟨hEnd, hAll⟩ := ih t
      cases result with
      | ok =>
        simp only [takeAll, hTake]
        exact ⟨hEnd, List.forall_mem_cons.2 ⟨rfl, hAll⟩⟩
      | error e =>
        obtain rfl := Step.eq_of_take_error hTake
        exact ⟨hEnd, hAll⟩

/-- An overlay that succeeds does so again, and changes nothing then. -/
theorem overlayInPlace_again {text : String} (h : overlayInPlace text s = (.ok (), t)) :
    overlayInPlace text t = (.ok (), t) := by
  rw [overlayInPlace_eq] at h ⊢
  split at h
  · rename_i u hOverlay
    obtain rfl := (Prod.mk.inj h).2
    rw [overlayText_overlayText hOverlay]
  · cases h

/-- A step that fails leaves the settings as they are, so the steps that succeed come to the same
when they alone are taken, and all of them succeed then too. A document that was laid over settings
can be laid over them again, which changes nothing, whatever it has in the place of sections. -/
theorem steps_atomic (s : Settings) (steps : List Step) :
    (∀ (step : Step) (t u : Settings) (e : SettingsError), step.take t = (.error e, u) → u = t) ∧
      ((takeAll s (succeeding s steps)).2 = (takeAll s steps).2 ∧
        ∀ result ∈ (takeAll s (succeeding s steps)).1, result = .ok ()) ∧
      ∀ (text : String) (t u : Settings),
        overlayInPlace text t = (.ok (), u) → overlayInPlace text u = (.ok (), u) :=
  ⟨fun _ _ _ _ => Step.eq_of_take_error, takeAll_succeeding s steps,
    fun _ _ _ => overlayInPlace_again⟩

/-- A text between two documents that is not one of a mapping. -/
def shopSteps : List Step :=
  [.overlay "kubernetes:\n  namespace: shop\n", .overlay "shop",
    .overlay "registry:\n  enabled: false\n"]

theorem parse_scalar : Yaml.parse "shop" = .ok (.str "shop") := by decide +kernel

theorem overlayInPlace_shop :
    overlayInPlace "kubernetes:\n  namespace: shop\n" hostSettings = (.ok (), shopSettings) := by
  rw [overlayInPlace_eq, overlayText, parse_shop]
  simp only [overlay_shop]

theorem overlayInPlace_scalar :
    overlayInPlace "shop" shopSettings = (.error .overlayNotMapping, shopSettings) := by
  rw [overlayInPlace_eq, overlayText, parse_scalar]
  rfl

theorem takeAll_shop :
    takeAll hostSettings shopSteps =
      ([.ok (), .error .overlayNotMapping, .ok ()], offSettings) := by
  have hOff : overlayInPlace "registry:\n  enabled: false\n" shopSettings =
      (.ok (), offSettings) := by
    rw [overlayInPlace_eq, overlayText, parse_off]
    simp only [overlay_off]
  simp only [shopSteps, takeAll, Step.take, overlayInPlace_shop, overlayInPlace_scalar, hOff]

/-- The text in the middle changes nothing, and the first document may be laid over twice. -/
theorem steps_atomic_shop :
    (takeAll hostSettings (succeeding hostSettings shopSteps)).2 = offSettings ∧
      overlayInPlace "kubernetes:\n  namespace: shop\n" shopSettings = (.ok (), shopSettings) ∧
      ∃ u e, (Step.overlay "shop").take shopSettings = (.error e, u) ∧ u = shopSettings := by
  obtain ⟨hFails, hEnd, hAgain⟩ := steps_atomic hostSettings shopSteps
  have hScalar : (Step.overlay "shop").take shopSettings =
      (.error .overlayNotMapping, shopSettings) := overlayInPlace_scalar
  constructor
  · rw [hEnd.1, takeAll_shop]
  · exact ⟨hAgain _ hostSettings _ overlayInPlace_shop, _, _, hScalar, hFails _ _ _ _ hScalar⟩

end KubeCompose.Settings
