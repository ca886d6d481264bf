import KubeCompose.Proofs.Schema
import Mathlib.Data.List.Induction

/-!
# Layers of settings

Settings come in layers: the standard ones, those of the variables, the documents that are laid over
them one after another, and an address given for the registry. Each single setting holds what the
last layer says that names it. A document is laid over settings by way of the document of these
settings, so a setting keeps its value because it is written at the path from which it is read.
-/

namespace KubeCompose.Settings

open Yaml (fields exists_of_bind_eq_ok)
open Text (asciiLowercase)

/-! ### Documents over settings -/

/-- Whether a document has a mapping without a tag for each section that it mentions. -/
def IsSectioned (d : Yaml) : Prop :=
  ∀ p ∈ sections, ∀ v ∈ d.at? p, v.isPlainMap = true

instance (d : Yaml) : Decidable (IsSectioned d) :=
  inferInstanceAs (Decidable (∀ p ∈ sections, ∀ v ∈ d.at? p, v.isPlainMap = true))

/-- The path of the setting that says whether a registry is used. -/
def switchPath : List String := ["registry", "enabled"]

/-- Whether a registry is used as far as a document says it: naming a host turns it on. -/
def switch? (d : Yaml) : Option Bool :=
  if namesHost d then some true
  else (d.at? switchPath).bind fun v => (Content.flag.decode v).toOption

variable {c : Content} {d : Yaml} {s t : Settings} {l : Leaf c}

/-- Null names no setting. -/
theorem Leaf.at?_null (l : Leaf c) : Yaml.null.at? l.path = none := by
  cases l <;> rfl

theorem Leaf.mapsAlong (l : Leaf c) {entries : List (Yaml × Yaml)}
    (h : IsSectioned (.map entries)) : (Yaml.map entries).MapsAlong l.path := by
  apply Yaml.mapsAlong_of_inits
  intro start hStart u hAt
  obtain rfl | hSection := l.mem_sections start hStart
  · rw [Yaml.at?_nil, Option.some.injEq] at hAt
    exact ⟨entries, hAt.symm⟩
  · exact Yaml.exists_of_isPlainMap (h start hSection u hAt)

/-- The settings with a registry that is used. -/
def switchedOn (s : Settings) : Settings :=
  { s with registry := { s.registry with enabled := true } }

theorem Leaf.get_switchedOn (h : l.path ≠ switchPath) (s : Settings) :
    l.get s.switchedOn = l.get s := by
  cases l with
  | registry p =>
    cases p with
    | enabled => exact absurd rfl h
    | _ => rfl
  | _ => rfl

/-- A document that is laid over settings is merged with theirs, or it is null. -/
theorem overlay_cases (h : s.overlay d = .ok t) :
    (d = .null ∧ t = s) ∨
      ∃ entries m, d = .map entries ∧ decode (s.toYaml.merge d) = .ok m ∧
        t = if namesHost d then m.switchedOn else m := by
  cases d with
  | null => exact .inl ⟨rfl, (Except.ok.inj h).symm⟩
  | map entries =>
    rw [overlay] at h
    split at h
    · cases h
    · rename_i m hMerged
      exact .inr ⟨entries, m, rfl, hMerged, (Except.ok.inj h).symm⟩
  | _ => cases h

section Merged

variable {entries : List (Yaml × Yaml)} {v : Yaml}
  (hKeys : (Yaml.map entries).keysDiffer = true) (hSections : IsSectioned (.map entries))
  (hMerged : decode (s.toYaml.merge (.map entries)) = .ok t)
include hKeys hSections hMerged

theorem Leaf.of_merge_named (hv : (Yaml.map entries).at? l.path = some v) :
    c.decode v = .ok (l.get t) := by
  apply l.reads.of_merge_named l.writes hKeys (l.mapsAlong hSections) hMerged _ hv
  exact Content.encode_ne_map l.isSection_eq_false

theorem Leaf.of_merge_unnamed (hv : (Yaml.map entries).at? l.path = none) : l.get t = l.get s := by
  apply Content.eq_of_decode_encode l.isSection_eq_false
  exact l.reads.of_merge_unnamed l.writes hKeys (l.mapsAlong hSections) hMerged hv

end Merged

section Overlay

variable (hKeys : d.keysDiffer = true) (hSections : IsSectioned d) (h : s.overlay d = .ok t)
include hKeys hSections h

/-- A setting that a document names has the value that the document gives it. -/
theorem Leaf.of_overlay_named (hSwitch : l.path ≠ switchPath) {v : Yaml}
    (hv : d.at? l.path = some v) : c.decode v = .ok (l.get t) := by
  obtain ⟨rfl, rfl⟩ | ⟨entries, m, rfl, hMerged, rfl⟩ := overlay_cases h
  · rw [l.at?_null] at hv
    cases hv
  · have hHere := Leaf.of_merge_named hKeys hSections hMerged hv
    split
    · rw [l.get_switchedOn hSwitch, hHere]
    · exact hHere

/-- A setting that a document does not name is kept. -/
theorem Leaf.of_overlay_unnamed (hSwitch : l.path ≠ switchPath) (hv : d.at? l.path = none) :
    l.get t = l.get s := by
  obtain ⟨rfl, rfl⟩ | ⟨entries, m, rfl, hMerged, rfl⟩ := overlay_cases h
  · rfl
  · have hHere := Leaf.of_merge_unnamed hKeys hSections hMerged hv
    split
    · rw [l.get_switchedOn hSwitch, hHere]
    · exact hHere

/-- A registry is used as a document says, or as before. -/
theorem enabled_of_overlay : t.registry.enabled = (switch? d).getD s.registry.enabled := by
  obtain ⟨rfl, rfl⟩ | ⟨entries, m, rfl, hMerged, rfl⟩ := overlay_cases h
  · rfl
  · rw [switch?]
    split
    · rfl
    · -- no host is named, so the switch is read like any other setting
      cases hv : (Yaml.map entries).at? switchPath with
      | none => exact Leaf.of_merge_unnamed (l := .registry .enabled) hKeys hSections hMerged hv
      | some v =>
        have hHere := Leaf.of_merge_named (l := .registry .enabled) hKeys hSections hMerged hv
        rw [Option.bind_some, hHere]
        rfl

end Overlay

/-! ### Several documents over settings -/

theorem findSome?_reverse_concat {α β : Type} (f : α → Option β) (l : List α) (a : α) :
    (l ++ [a]).reverse.findSome? f = (f a).or (l.reverse.findSome? f) := by
  rw [List.reverse_append, List.reverse_singleton, List.singleton_append, List.findSome?_cons]
  cases f a <;> rfl

/-- What the last document says that names a setting. -/
def Leaf.named? (documents : List Yaml) (l : Leaf c) : Option Yaml :=
  documents.reverse.findSome? fun d => d.at? l.path

/-- What the last document says that decides whether a registry is used. -/
def lastSwitch? (documents : List Yaml) : Option Bool := documents.reverse.findSome? switch?

/-- Texts are laid over settings as the documents that they hold. -/
theorem foldlM_overlay_of_texts {texts : List String} {documents : List Yaml}
    (hTexts : texts.foldlM overlayText s = .ok t) (hParse : texts.mapM Yaml.parse = .ok documents) :
    documents.foldlM overlay s = .ok t ∧ ∀ d ∈ documents, d.keysDiffer = true := by
  induction texts generalizing s documents with
  | nil =>
    obtain rfl := Except.ok.inj hParse
    exact ⟨hTexts, by simp⟩
  | cons text texts ih =>
    rw [List.mapM_cons] at hParse
    obtain ⟨d, hText, hParse⟩ := exists_of_bind_eq_ok hParse
    obtain ⟨rest, hRest, hDocuments⟩ := exists_of_bind_eq_ok hParse
    obtain rfl := Except.ok.inj hDocuments
    rw [List.foldlM_cons] at hTexts
    obtain ⟨u, hFirst, hTexts⟩ := exists_of_bind_eq_ok hTexts
    obtain ⟨hFold, hKeys⟩ := ih hTexts hRest
    rw [overlayText, hText] at hFirst
    obtain ⟨node, -, hDocument⟩ := exists_of_bind_eq_ok hText
    constructor
    · rw [List.foldlM_cons]
      change (s.overlay d >>= fun u => rest.foldlM overlay u) = _
      rw [show s.overlay d = .ok u from hFirst]
      exact hFold
    · exact List.forall_mem_cons.2 ⟨Yaml.keysDiffer_of_document hDocument, hKeys⟩

theorem exists_of_foldlM_concat {documents : List Yaml}
    (h : (documents ++ [d]).foldlM overlay s = .ok t) :
    ∃ u, documents.foldlM overlay s = .ok u ∧ u.overlay d = .ok t := by
  rw [List.foldlM_append] at h
  obtain ⟨u, hBefore, hLast⟩ := exists_of_bind_eq_ok h
  rw [List.foldlM_cons] at hLast
  obtain ⟨w, hStep, hEnd⟩ := exists_of_bind_eq_ok hLast
  exact ⟨u, hBefore, Except.ok.inj hEnd ▸ hStep⟩

section Overlays

variable {documents : List Yaml} (hKeys : ∀ d ∈ documents, d.keysDiffer = true)
  (hSections : ∀ d ∈ documents, IsSectioned d) (h : documents.foldlM overlay s = .ok t)
include hKeys hSections h

/-- A setting has the value that the last document gives it that names it, or is kept. -/
theorem Leaf.of_overlays (hSwitch : l.path ≠ switchPath) :
    match l.named? documents with
    | some v => c.decode v = .ok (l.get t)
    | none => l.get t = l.get s := by
  -- from the last document on: what it names is decided, and the rest was decided before it
  induction documents using List.reverseRecOn generalizing t with
  | nil => rw [← Except.ok.inj h]; rfl
  | append_singleton documents d ih =>
    obtain ⟨u, hBefore, hLast⟩ := exists_of_foldlM_concat h
    rw [List.forall_mem_append, List.forall_mem_singleton] at hKeys hSections
    rw [Leaf.named?, findSome?_reverse_concat]
    cases hv : d.at? l.path with
    | some v => exact Leaf.of_overlay_named hKeys.2 hSections.2 hLast hSwitch hv
    | none =>
      rw [Leaf.of_overlay_unnamed hKeys.2 hSections.2 hLast hSwitch hv, Option.none_or]
      exact ih hKeys.1 hSections.1 hBefore

/-- A registry is used as the last document says that decides about it, or as before. -/
theorem enabled_of_overlays :
    t.registry.enabled = (lastSwitch? documents).getD s.registry.enabled := by
  induction documents using List.reverseRecOn generalizing t with
  | nil => rw [← Except.ok.inj h]; rfl
  | append_singleton documents d ih =>
    obtain ⟨u, hBefore, hLast⟩ := exists_of_foldlM_concat h
    rw [List.forall_mem_append, List.forall_mem_singleton] at hKeys hSections
    rw [lastSwitch?, findSome?_reverse_concat, enabled_of_overlay hKeys.2 hSections.2 hLast,
      ih hKeys.1 hSections.1 hBefore]
    cases switch? d <;> rfl

end Overlays

/-! ### Variables -/

/-- What the text of a variable, if there is one, makes of a standard value. -/
def Content.Given (c : Content) (given? : Option String) (standard value : c.Value) : Prop :=
  match given? with
  | some given => c.ofText? given = some value
  | none => value = standard

namespace Content

variable (given? : Option String)

theorem given_text (x : String) : Content.text.Given given? x (given?.getD x) := by
  cases given? <;> simp [Given, ofText?]

theorem given_optionalText : Content.optionalText.Given given? none given? := by
  cases given? <;> simp [Given, ofText?]

theorem given_flag :
    Content.flag.Given given? false (given?.any fun v => asciiLowercase v == "true") := by
  cases given? <;> simp [Given, ofText?]

theorem given_kind : Content.kind.Given given? none (given?.bind ClusterKind.ofText?) := by
  cases given? <;> simp [Given, ofText?]

theorem given_texts (x : List String) :
    Content.texts.Given given? x ((given?.map typesOfText).getD x) := by
  cases given? <;> simp [Given, ofText?]

end Content

variable {vars : Variables} {base : Settings}

/-- The registry that the variables describe, but for the port. -/
def registryWithPort (vars : Variables) (port : Nat) : Registry where
  enabled := (vars.value? "REGISTRY_HOST").isSome
  url := none
  host := (vars.value? "REGISTRY_HOST").getD Registry.standard.host
  port := port
  path := (vars.value? "REGISTRY_PATH").getD Registry.standard.path
  insecure := vars.flag "REGISTRY_INSECURE"
  username := vars.value? "REGISTRY_USERNAME"
  password := vars.value? "REGISTRY_PASSWORD"

theorem exists_port_of_registryOfVariables {r : Registry} (h : registryOfVariables vars = .ok r) :
    ∃ port : Nat, r = registryWithPort vars port ∧
      Content.port.Given (vars.value? "REGISTRY_PORT") Registry.standard.port port := by
  rw [registryOfVariables] at h
  cases hGiven : vars.value? "REGISTRY_PORT" with
  | none =>
    simp only [hGiven] at h
    exact ⟨_, (Except.ok.inj h).symm, by simp [Content.Given]⟩
  | some given =>
    simp only [hGiven] at h
    split at h
    · rename_i n hNumber
      split at h
      · rename_i hBound
        refine ⟨n, (Except.ok.inj h).symm, ?_⟩
        simp [Content.Given, Content.ofText?, hNumber, hBound]
      · cases h
    · cases h

/-- Settings of variables have in each place what its variable says, or the standard value. -/
theorem Leaf.given_of_ofVariables (h : ofVariables vars = .ok base)
    (hSwitch : l.path ≠ switchPath) :
    c.Given (l.variableName?.bind vars.value?) (l.get standard) (l.get base) := by
  rw [ofVariables] at h
  obtain ⟨r, hRegistry, h⟩ := exists_of_bind_eq_ok h
  obtain rfl := Except.ok.inj h
  obtain ⟨port, rfl, hPort⟩ := exists_port_of_registryOfVariables hRegistry
  cases l with
  | registry p =>
    cases p with
    | enabled => exact absurd rfl hSwitch
    | url => exact Eq.refl none
    | host => exact Content.given_text _ _
    | port => exact hPort
    | path => exact Content.given_text _ _
    | insecure => exact Content.given_flag _
    | username => exact Content.given_optionalText _
    | password => exact Content.given_optionalText _
  | cluster p =>
    cases p with
    | namespaceName => exact Content.given_text _ _
    | context => exact Content.given_optionalText _
    | skipTlsVerify => exact Content.given_flag _
    | kind => exact Content.given_kind _
  | quantity group side amount =>
    cases group <;> cases side <;> cases amount <;> exact Content.given_text _ _
  | databaseTypes => exact Content.given_texts _ _
  | program p =>
    cases p with
    | docker => exact Eq.refl "docker"
    | kompose => exact Content.given_text _ _
    | kubectl => exact Eq.refl "kubectl"

theorem enabled_of_ofVariables (h : ofVariables vars = .ok base) :
    base.registry.enabled = (vars.value? "REGISTRY_HOST").isSome := by
  rw [ofVariables] at h
  obtain ⟨r, hRegistry, h⟩ := exists_of_bind_eq_ok h
  obtain rfl := Except.ok.inj h
  obtain ⟨port, rfl, -⟩ := exists_port_of_registryOfVariables hRegistry
  rfl

/-! ### All layers -/

/-- The settings with an address that is given for the registry. -/
def withGivenUrl (s : Settings) : Option String → Settings
  | some url => s.withRegistryUrl url
  | none => s

/-- What the layers make of a setting: the last document that names it decides, otherwise its
variable, otherwise the standard settings. -/
def Leaf.Layered (l : Leaf c) (vars : Variables) (documents : List Yaml) (value : c.Value) : Prop :=
  match l.named? documents with
  | some v => c.decode v = .ok value
  | none => c.Given (l.variableName?.bind vars.value?) (l.get standard) value

/-- What the layers make of all settings. An address that is given for the registry is its address,
and turns it on. -/
structure Layered (vars : Variables) (documents : List Yaml) (url? : Option String) (s : Settings) :
    Prop where
  leaf : ∀ {c : Content} (l : Leaf c), l.path ≠ switchPath →
    (url?.isSome → l.path ≠ Leaf.path (.registry .url)) → l.Layered vars documents (l.get s)
  url : url?.isSome → s.registry.url = url?
  enabled : s.registry.enabled =
    (url?.isSome || (lastSwitch? documents).getD (vars.value? "REGISTRY_HOST").isSome)

/-- Whether settings are the same but for what a document names, and for the registry being used
where a document decides about that. -/
structure SameBeyond (d : Yaml) (s t : Settings) : Prop where
  leaf : ∀ {c : Content} (l : Leaf c), l.path ≠ switchPath → d.at? l.path = none → l.get t = l.get s
  enabled : switch? d = none → t.registry.enabled = s.registry.enabled

theorem Leaf.get_withRegistryUrl (hSwitch : l.path ≠ switchPath)
    (hUrl : l.path ≠ Leaf.path (.registry .url)) (s : Settings) (url : String) :
    l.get (s.withRegistryUrl url) = l.get s := by
  cases l with
  | registry p =>
    cases p with
    | enabled => exact absurd rfl hSwitch
    | url => exact absurd rfl hUrl
    | _ => rfl
  | _ => rfl

theorem Layered.withGivenUrl {documents : List Yaml} (h : Layered vars documents none s)
    (url? : Option String) : Layered vars documents url? (s.withGivenUrl url?) := by
  cases url? with
  | none => exact h
  | some url =>
    refine ⟨?_, fun _ => rfl, rfl⟩
    intro c l hSwitch hUrl
    rw [Settings.withGivenUrl, l.get_withRegistryUrl hSwitch (hUrl rfl)]
    exact h.leaf l hSwitch (fun hNone => absurd hNone (by simp))

theorem Content.Given.unique {given? : Option String} {standard x y : c.Value}
    (hx : c.Given given? standard x) (hy : c.Given given? standard y) : x = y := by
  cases given? with
  | none => exact Eq.trans hx (Eq.symm hy)
  | some given => exact Option.some.inj (Eq.trans (Eq.symm hx) hy)

theorem Leaf.Layered.unique {documents : List Yaml} {x y : c.Value}
    (hx : l.Layered vars documents x) (hy : l.Layered vars documents y) : x = y := by
  rw [Leaf.Layered] at hx hy
  cases hNamed : l.named? documents with
  | some v =>
    rw [hNamed] at hx hy
    exact Except.ok.inj (Eq.trans (Eq.symm hx) hy)
  | none =>
    rw [hNamed] at hx hy
    exact hx.unique hy

/-- The layers determine the settings. -/
theorem Layered.unique {documents : List Yaml} {url? : Option String}
    (hs : Layered vars documents url? s) (ht : Layered vars documents url? t) : s = t := by
  have hLeaf : ∀ {c : Content} (l : Leaf c), l.path ≠ switchPath →
      (url?.isSome → l.path ≠ Leaf.path (.registry .url)) → l.get s = l.get t :=
    fun l hSwitch hUrl => (hs.leaf l hSwitch hUrl).unique (ht.leaf l hSwitch hUrl)
  apply Leaf.ext
  intro c l
  cases l with
  | registry p =>
    cases p with
    | enabled => exact hs.enabled.trans ht.enabled.symm
    | url =>
      by_cases hGiven : url?.isSome
      · exact (hs.url hGiven).trans (ht.url hGiven).symm
      · exact hLeaf _ (by decide) fun h => absurd h hGiven
    | _ => exact hLeaf _ (by decide) fun _ => by decide
  | _ => refine hLeaf _ ?_ fun _ => ?_ <;> simp [Leaf.path, switchPath, Part.name]

theorem layered_of_foldlM {documents : List Yaml} (hVars : ofVariables vars = .ok base)
    (hKeys : ∀ d ∈ documents, d.keysDiffer = true) (hSections : ∀ d ∈ documents, IsSectioned d)
    (h : documents.foldlM overlay base = .ok s) : Layered vars documents none s := by
  constructor
  · intro c l hSwitch _
    have hLeaf := l.of_overlays hKeys hSections h hSwitch
    rw [Leaf.Layered]
    split at hLeaf
    · exact hLeaf
    · rw [hLeaf]
      exact l.given_of_ofVariables hVars hSwitch
  · simp
  · rw [enabled_of_overlays hKeys hSections h, enabled_of_ofVariables hVars]
    rfl

/-- After texts are laid over the settings of variables and an address is given or not, each setting
holds what its last layer says, and no other settings do so. A text over any settings changes only
what it names, and turns the registry on or off only where it decides about that. -/
theorem layered_of_overlays {texts : List String} {documents : List Yaml}
    (hVars : ofVariables vars = .ok base) (hTexts : texts.foldlM overlayText base = .ok s)
    (hParse : texts.mapM Yaml.parse = .ok documents) (hSections : ∀ d ∈ documents, IsSectioned d)
    (url? : Option String) :
    Layered vars documents url? (s.withGivenUrl url?) ∧
      (∀ t, Layered vars documents url? t → t = s.withGivenUrl url?) ∧
      ∀ d ∈ documents, ∀ t u, t.overlay d = .ok u → SameBeyond d t u := by
  obtain ⟨hFold, hKeys⟩ := foldlM_overlay_of_texts hTexts hParse
  have hLayered := (layered_of_foldlM hVars hKeys hSections hFold).withGivenUrl url?
  refine ⟨hLayered, fun t ht => ht.unique hLayered, ?_⟩
  intro d hd t u hOverlay
  constructor
  · intro c l hSwitch hv
    exact Leaf.of_overlay_unnamed (hKeys d hd) (hSections d hd) hOverlay hSwitch hv
  · intro hv
    rw [enabled_of_overlay (hKeys d hd) (hSections d hd) hOverlay, hv, Option.getD_none]

/-- Variables with a host and a limit. -/
def hostVariables : Variables := fun name =>
  match name with
  | "REGISTRY_HOST" => some "registry.local"
  | "DB_CPU_LIMIT" => some "2"
  | _ => none

/-- What these variables describe. -/
def hostSettings : Settings :=
  { standard with
    registry := { Registry.standard with host := "registry.local", enabled := true }
    resources :=
      { Resources.standard with
        database := { Resources.standard.database with limits := ⟨"2", "1Gi"⟩ } } }

/-- A document with another namespace. -/
def shopDocument : Yaml := fields [("kubernetes", fields [("namespace", .str "shop")])]

/-- A document that turns the registry off. -/
def offDocument : Yaml := fields [("registry", fields [("enabled", .bool false)])]

theorem parse_shop : Yaml.parse "kubernetes:\n  namespace: shop\n" = .ok shopDocument := by
  decide +kernel

theorem parse_off : Yaml.parse "registry:\n  enabled: false\n" = .ok offDocument := by
  decide +kernel

/-- What the documents make of these settings, one after another. -/
def shopSettings : Settings :=
  { hostSettings with cluster := { Cluster.standard with «namespace» := "shop" } }

def offSettings : Settings :=
  { shopSettings with registry := { shopSettings.registry with enabled := false } }

theorem overlay_shop : hostSettings.overlay shopDocument = .ok shopSettings := rfl

theorem overlay_off : shopSettings.overlay offDocument = .ok offSettings := rfl

theorem foldlM_overlayText_shop :
    ["kubernetes:\n  namespace: shop\n", "registry:\n  enabled: false\n"].foldlM overlayText
      hostSettings = .ok offSettings := by
  have hShop : hostSettings.overlayText "kubernetes:\n  namespace: shop\n" = .ok shopSettings := by
    rw [overlayText, parse_shop]
    exact overlay_shop
  have hOff : shopSettings.overlayText "registry:\n  enabled: false\n" = .ok offSettings := by
    rw [overlayText, parse_off]
    exact overlay_off
  simp only [List.foldlM_cons, List.foldlM_nil, bind, Except.bind, hShop, hOff]
  rfl

/-- A document without a host turns the registry off again, and the limit stays. -/
theorem layered_shop :
    ["kubernetes:\n  namespace: shop\n", "registry:\n  enabled: false\n"].foldlM overlayText
        hostSettings = .ok offSettings ∧
      Layered hostVariables [shopDocument, offDocument] none offSettings ∧
      (∀ t, Layered hostVariables [shopDocument, offDocument] none t → t = offSettings) ∧
      ∀ d ∈ [shopDocument, offDocument], ∀ t u, t.overlay d = .ok u → SameBeyond d t u := by
  have hVars : ofVariables hostVariables = .ok hostSettings := rfl
  have hParse : ["kubernetes:\n  namespace: shop\n", "registry:\n  enabled: false\n"].mapM
      Yaml.parse = .ok [shopDocument, offDocument] := by
    simp only [List.mapM_cons, List.mapM_nil, bind, Except.bind, parse_shop, parse_off]
    rfl
  exact ⟨foldlM_overlayText_shop,
    layered_of_overlays hVars foldlM_overlayText_shop hParse (by decide) none⟩

end KubeCompose.Settings
