import KubeCompose.Proofs.Readable

/-!
# What is read of a project

The services of a project are read from the entries of its `services` section in their order, each
under the text of its key, which it has for its name. A service has an image or a build section when
its mapping says more than null of one of them: the check that a service names one looks at the keys
of its mapping alone.

A volume is read in two forms. Both give the same path in the container, and both say the same of
whether the volume has a name, unless its source is a single dot: in the short form the dot is
looked for in the whole text.
-/

namespace KubeCompose.Compose

open OrderedMap (keys ofList)
open Yaml (exists_of_bind_eq_ok exists_of_map_eq_ok)
open Yaml.Decode (fieldName fieldsFrom)

/-! ### Services -/

/-- A service with an image or a build section. -/
def Service.HasSource (s : Service) : Prop := s.image.isSome ∨ s.build.isSome

/-- An entry that gives a service an image or a build section, whether its key is tagged or not. -/
def GivesSource (e : Yaml × Yaml) : Prop :=
  (e.1.untagged = .str "image" ∨ e.1.untagged = .str "build") ∧ e.2 ≠ .null

/-- What is not null is there. -/
theorem isSome_of_optional_eq_ok {α : Type} {decode : Yaml.Decoder α} {v : Yaml} {a : Option α}
    (h : Yaml.Decode.optional decode v = .ok a) : a.isSome ↔ v ≠ .null := by
  unfold Yaml.Decode.optional at h
  split at h
  · simp [← Except.ok.inj h]
  · rename_i hNull
    obtain ⟨b, -, rfl⟩ := exists_of_map_eq_ok h
    exact iff_of_true rfl hNull

theorem fieldName_eq_ok_iff {k : Yaml} {name : String} :
    fieldName k = .ok name ↔ k.untagged = .str name := by
  unfold fieldName
  split
  · rename_i hText
    simp [hText]
  · rename_i hText
    simpa using fun hEq => hText name hEq

namespace Service

variable {s s' : Service} {name : String} {v : Yaml}

/-- A field is one of the two sources, or it leaves both as they are. -/
theorem source_of_setField (h : setField s name v = .ok s') :
    (name = "image" ∧ (s'.image.isSome ↔ v ≠ .null) ∧ s'.build = s.build) ∨
      (name = "build" ∧ (s'.build.isSome ↔ v ≠ .null) ∧ s'.image = s.image) ∨
      (name ≠ "image" ∧ name ≠ "build" ∧ s'.image = s.image ∧ s'.build = s.build) := by
  unfold setField at h
  split at h
  case h_1 =>
    obtain ⟨image, hImage, rfl⟩ := exists_of_map_eq_ok h
    exact .inl ⟨rfl, isSome_of_optional_eq_ok hImage, rfl⟩
  case h_2 =>
    obtain ⟨build, hBuild, rfl⟩ := exists_of_map_eq_ok h
    exact .inr (.inl ⟨rfl, isSome_of_optional_eq_ok hBuild, rfl⟩)
  case h_7 hImage hBuild _ _ _ _ =>
    obtain rfl := Except.ok.inj h
    exact .inr (.inr ⟨hImage, hBuild, rfl, rfl⟩)
  all_goals
    obtain ⟨part, -, rfl⟩ := exists_of_map_eq_ok h
    exact .inr (.inr ⟨by decide, by decide, rfl, rfl⟩)

/-- The sources of a service are among the fields read before. -/
structure SourcesIn (s : Service) (seen : List String) : Prop where
  image : s.image.isSome → "image" ∈ seen
  build : s.build.isSome → "build" ∈ seen

/-- A field that was not read before adds a source, or it leaves both as they are. -/
theorem hasSource_of_setField {seen : List String} (hSeen : s.SourcesIn seen) (hNew : name ∉ seen)
    (h : setField s name v = .ok s') :
    s'.SourcesIn (name :: seen) ∧
      (s'.HasSource ↔ s.HasSource ∨ (name = "image" ∨ name = "build") ∧ v ≠ .null) := by
  rcases source_of_setField h with ⟨rfl, hSome, hSame⟩ | ⟨rfl, hSome, hSame⟩ |
    ⟨hNotImage, hNotBuild, hImage, hBuild⟩
  · have hNone : ¬ s.image.isSome := fun hThere => hNew (hSeen.image hThere)
    refine ⟨⟨fun _ => List.mem_cons_self, fun hThere => ?_⟩, ?_⟩
    · exact List.mem_cons_of_mem _ (hSeen.build (hSame ▸ hThere))
    · simp [HasSource, hSame, hSome, hNone, or_comm]
  · have hNone : ¬ s.build.isSome := fun hThere => hNew (hSeen.build hThere)
    refine ⟨⟨fun hThere => ?_, fun _ => List.mem_cons_self⟩, ?_⟩
    · exact List.mem_cons_of_mem _ (hSeen.image (hSame ▸ hThere))
    · simp [HasSource, hSame, hSome, hNone]
  · refine ⟨⟨fun hThere => ?_, fun hThere => ?_⟩, ?_⟩
    · exact List.mem_cons_of_mem _ (hSeen.image (hImage ▸ hThere))
    · exact List.mem_cons_of_mem _ (hSeen.build (hBuild ▸ hThere))
    · simp [HasSource, hImage, hBuild, hNotImage, hNotBuild]

/-- Each of the two sources is read once, so a later field does not take it away. -/
theorem hasSource_of_fieldsFrom {seen : List String} {entries : List (Yaml × Yaml)}
    (hSeen : s.SourcesIn seen) (h : fieldsFrom serviceFields setField seen s entries = .ok s') :
    s'.HasSource ↔ s.HasSource ∨ ∃ e ∈ entries, GivesSource e := by
  induction entries generalizing seen s with
  | nil => simp [← Except.ok.inj h]
  | cons e entries ih =>
    obtain ⟨k, v⟩ := e
    rw [fieldsFrom] at h
    obtain ⟨name, hName, h⟩ := exists_of_bind_eq_ok h
    have hGives : GivesSource (k, v) ↔ (name = "image" ∨ name = "build") ∧ v ≠ .null := by
      rw [GivesSource, fieldName_eq_ok_iff.1 hName, Yaml.str.injEq, Yaml.str.injEq]
    simp only [List.mem_cons, exists_eq_or_imp, hGives]
    split at h
    · split at h
      · cases h
      · rename_i hNew
        obtain ⟨u, hField, hRest⟩ := exists_of_bind_eq_ok h
        obtain ⟨hSeen', hStep⟩ := hasSource_of_setField hSeen hNew hField
        rw [ih hSeen' hRest, hStep, or_assoc]
    · rename_i hUnknown
      have hNot : ¬ (name = "image" ∨ name = "build") := by
        rintro (rfl | rfl) <;> exact hUnknown (by decide)
      rw [ih hSeen h]
      simp [hNot]

theorem name_of_setField (h : setField s name v = .ok s') : s'.name = s.name := by
  unfold setField at h
  split at h
  case h_7 => rw [← Except.ok.inj h]
  all_goals
    obtain ⟨part, -, rfl⟩ := exists_of_map_eq_ok h
    rfl

end Service

/-- The value of a key under `services` declares an image or a build section. -/
def Declares (v : Yaml) : Prop := ∃ fields, v = .map fields ∧ ∃ e ∈ fields, GivesSource e

theorem spec_of_decodeService {name : String} {v : Yaml} {s : Service}
    (h : decodeService name v = .ok s) : s.name = name ∧ (s.HasSource ↔ Declares v) := by
  unfold decodeService at h
  split at h
  · rename_i fields
    split at h
    · split at h
      · rename_i hRead
        obtain rfl := Except.ok.inj h
        have hName := of_fieldsFrom (P := fun t => t.name = name)
          (fun _ _ _ _ hOld hField => (Service.name_of_setField hField).trans hOld) rfl hRead
        have hSource := Service.hasSource_of_fieldsFrom
          ⟨by simp [Service.empty], by simp [Service.empty]⟩ hRead
        refine ⟨hName, ?_⟩
        rw [hSource]
        simp [Declares, Service.HasSource, Service.empty]
      · cases h
    · cases h
  · cases h

/-- A key and a value under `services`, and the service that is read from them. -/
structure Listed (e : Yaml × Yaml) (r : String × Service) : Prop where
  key : e.1.asText? = some r.1
  read : decodeService r.1 e.2 = .ok r.2

theorem names_of_listed {entries : List (Yaml × Yaml)} {read : List (String × Service)}
    (h : List.Forall₂ Listed entries read) : ∀ r ∈ read, r.2.name = r.1 := by
  induction h with
  | nil => simp
  | cons hEntry _ ih => exact List.forall_mem_cons.2 ⟨(spec_of_decodeService hEntry.read).1, ih⟩

theorem exists_listed_of_decodeServices {done services : OrderedMap String Service}
    {entries : List (Yaml × Yaml)} (h : decodeServices done entries = .ok services) :
    ∃ read, List.Forall₂ Listed entries read ∧
      services = read.foldl (fun m r => OrderedMap.insert m r.1 r.2) done := by
  induction entries generalizing done with
  | nil => exact ⟨[], .nil, (Except.ok.inj h).symm⟩
  | cons e entries ih =>
    obtain ⟨key, v⟩ := e
    rw [decodeServices] at h
    split at h
    · cases h
    · rename_i name hKey
      obtain ⟨s, hService, hRest⟩ := exists_of_bind_eq_ok h
      obtain ⟨read, hListed, hServices⟩ := ih hRest
      exact ⟨(name, s) :: read, .cons ⟨hKey, hService⟩ hListed, hServices⟩

/-- The entries of the `services` section of a document; where it is null there are none. -/
def ServicesAt (root : Yaml) (entries : List (Yaml × Yaml)) : Prop :=
  ∃ sections, root.asMap? = some sections ∧
    (OrderedMap.find? sections (.str "services") = some (.map entries) ∨
      OrderedMap.find? sections (.str "services") = some .null ∧ entries = [])

theorem exists_servicesAt {root : Yaml} {services : OrderedMap String Service}
    (h : servicesOf root = .ok services) :
    ∃ entries, ServicesAt root entries ∧ decodeServices [] entries = .ok services := by
  unfold servicesOf at h
  split at h
  · cases h
  · rename_i sections hSections
    split at h
    · cases h
    · rename_i hNull
      exact ⟨[], ⟨sections, hSections, .inr ⟨hNull, rfl⟩⟩, h⟩
    · rename_i entries hMap
      exact ⟨entries, ⟨sections, hSections, .inl hMap⟩, h⟩
    · cases h

/-- What is read of a text: `read` lists the services of the `entries` of its `services` section in
their order. A key whose text was there before gives the place of that key its service, so the
services are the list itself when the texts of the keys differ. -/
structure Loaded (text : String) (services : OrderedMap String Service)
    (entries : List (Yaml × Yaml)) (read : List (String × Service)) : Prop where
  document : ∃ root, Yaml.parse text = .ok root ∧ ServicesAt root entries
  listed : List.Forall₂ Listed entries read
  services_eq : services = ofList read
  exact : services = read ↔ (keys read).Nodup
  named : ∀ r ∈ services, r ∈ read ∧ r.2.name = r.1
  sources : List.Forall₂ (fun e r => r.2.HasSource ↔ Declares e.2) entries read

/-- The services of an accepted text are those of its entries, each under its own name. One of them
has an image or a build section when its mapping says more than null of one of the two. -/
theorem loaded_of_parseServices {text : String} {services : OrderedMap String Service}
    (h : parseServices text = .ok services) :
    ∃ entries read, Loaded text services entries read := by
  unfold parseServices at h
  split at h
  · cases h
  · rename_i root hParse
    obtain ⟨entries, hAt, hDecode⟩ := exists_servicesAt h
    obtain ⟨read, hListed, hServices⟩ := exists_listed_of_decodeServices hDecode
    have hServices : services = ofList read := hServices
    refine ⟨entries, read, ⟨root, hParse, hAt⟩, hListed, hServices, ?_, fun r hr => ?_, ?_⟩
    · rw [hServices]
      exact OrderedMap.ofList_eq_self_iff
    · have hMem : r ∈ read := OrderedMap.mem_of_mem_ofList (hServices ▸ hr)
      exact ⟨hMem, names_of_listed hListed r hMem⟩
    · exact hListed.imp fun e r hEntry => (spec_of_decodeService hEntry.read).2

/-- A project with a service that has an image, and one that is built. -/
def twoText : String := "services:\n  web:\n    image: nginx\n  api:\n    build: ./api\n"

/-- The entries of its services. -/
def twoEntries : List (Yaml × Yaml) :=
  [(.str "web", .map [(.str "image", .str "nginx")]),
   (.str "api", .map [(.str "build", .str "./api")])]

/-- The services that are read of it. -/
def twoServices : OrderedMap String Service :=
  [("web", { Service.empty "web" with image := some "nginx" }),
   ("api", { Service.empty "api" with build := some ⟨"./api", "Dockerfile"⟩ })]

theorem parse_twoText :
    Yaml.parse twoText = .ok (.map [(.str "services", .map twoEntries)]) := by
  decide +kernel

theorem parseServices_twoText : parseServices twoText = .ok twoServices := by
  rw [parseServices, parse_twoText]
  rfl

/-- The services are read in the order in which they are written, and both have a source. -/
theorem loaded_of_parseServices_twoText :
    parseServices twoText = .ok twoServices ∧ Loaded twoText twoServices twoEntries twoServices ∧
      ∀ r ∈ twoServices, r.2.HasSource := by
  obtain ⟨entries, read, hLoaded⟩ := loaded_of_parseServices parseServices_twoText
  obtain ⟨root, hParse, sections, hSections, hEntries⟩ := hLoaded.document
  obtain rfl := Except.ok.inj (parse_twoText.symm.trans hParse)
  obtain rfl := Option.some.inj hSections
  obtain hMap | ⟨hNull, -⟩ := hEntries
  · obtain rfl := Yaml.map.inj (Option.some.inj hMap)
    have hKeys : keys read = ["web", "api"] := by
      obtain ⟨web, rest, hWeb, hRest, rfl⟩ := List.forall₂_cons_left_iff.1 hLoaded.listed
      obtain ⟨api, last, hApi, hLast, rfl⟩ := List.forall₂_cons_left_iff.1 hRest
      obtain rfl := List.forall₂_nil_left_iff.1 hLast
      rw [keys, List.map_cons, List.map_singleton, ← Option.some.inj hWeb.key,
        ← Option.some.inj hApi.key]
    obtain rfl : twoServices = read := hLoaded.exact.2 (by rw [hKeys]; decide)
    have hSources := hLoaded.sources
    rw [twoEntries, twoServices, List.forall₂_cons, List.forall₂_cons] at hSources
    have hWeb := hSources.1.2 ⟨_, rfl, _, List.mem_singleton_self _, .inl rfl, by simp⟩
    have hApi := hSources.2.1.2 ⟨_, rfl, _, List.mem_singleton_self _, .inr rfl, by simp⟩
    exact ⟨parseServices_twoText, hLoaded, by simp [twoServices, hWeb, hApi]⟩
  · cases hNull

/-- A project with one service of whose image nothing is said. -/
def nullImageText : String := "services:\n  web:\n    image:\n"

/-- It is accepted, and its service has neither an image nor a build section. -/
theorem not_hasSource_of_nullImage :
    parseServices nullImageText = .ok [("web", Service.empty "web")] ∧
      ¬ (Service.empty "web").HasSource := by
  have hParse : Yaml.parse nullImageText = .ok (.map [(.str "services",
      .map [(.str "web", .map [(.str "image", .null)])])]) := by decide +kernel
  refine ⟨?_, by simp [Service.HasSource, Service.empty]⟩
  rw [parseServices, hParse]
  rfl

/-! ### Volumes -/

/-- A start without a separator is one of the text before the separator. -/
theorem isPrefixOf_append_sep {p s r : List Char} {sep : Char} (h : sep ∉ p) :
    p.isPrefixOf (s ++ sep :: r) = p.isPrefixOf s := by
  induction p generalizing s with
  | nil => rw [List.isPrefixOf_nil_left, List.isPrefixOf_nil_left]
  | cons c p ih =>
    obtain ⟨hc, hp⟩ : sep ≠ c ∧ sep ∉ p := by simpa using h
    cases s with
    | nil => simp [List.isPrefixOf, beq_eq_false_iff_ne.2 hc.symm]
    | cons d s => rw [List.cons_append, List.isPrefixOf, List.isPrefixOf, ih hp]

/-- The source of a volume in the short form is looked at with the text behind it, where it is never
a dot alone. -/
theorem isHostPath_append (s t : List Char) :
    isHostPath (s ++ ':' :: t) = (isHostPath s && s != ['.']) := by
  have hDot : (s ++ ':' :: t == ['.']) = false := by
    cases s with
    | nil => rfl
    | cons c r => simp [List.append_eq_nil_iff]
  rw [isHostPath, hDot, Bool.or_false]
  simp only [Text.startsWith]
  rw [isPrefixOf_append_sep (by decide), isPrefixOf_append_sep (by decide),
    isPrefixOf_append_sep (by decide), isPrefixOf_append_sep (by decide)]
  by_cases hs : s = ['.']
  · subst hs
    decide
  · simp [isHostPath, Text.startsWith, beq_eq_false_iff_ne.2 hs, bne_iff_ne.2 hs]

theorem decodeVolume_short (text : String) : decodeVolume (.str text) = .ok (.short text) := rfl

theorem decodeVolume_long (s t : String) :
    decodeVolume (.map [(.str "source", .str s), (.str "target", .str t)]) =
      .ok (.long none (some s) (some t)) := rfl

theorem Volume.containerPath?_short {s t : String} (hs : ':' ∉ s.toList) (ht : ':' ∉ t.toList)
    (hNonempty : t ≠ "") : (Volume.short (s ++ ":" ++ t)).containerPath? = some t := by
  have hText : (s ++ ":" ++ t).toList = s.toList ++ ':' :: t.toList := by simp
  rw [containerPath?, hText, Text.splitOn_append_sep, Text.splitOn_eq_singleton hs,
    Text.splitOn_eq_singleton ht]
  simp [hNonempty]

/-- The two forms of a volume agree on its path in the container. They agree on whether it has a
name unless its source is a dot, which is a path of the host in the long form alone. -/
theorem volume_forms_agree_iff {s t : String} (hs : ':' ∉ s.toList) (ht : ':' ∉ t.toList)
    (hNonempty : t ≠ "") :
    ∃ short long, decodeVolume (.str (s ++ ":" ++ t)) = .ok short ∧
      decodeVolume (.map [(.str "source", .str s), (.str "target", .str t)]) = .ok long ∧
      short.containerPath? = some t ∧ long.containerPath? = some t ∧
      (short.isNamed = long.isNamed ↔ s ≠ ".") := by
  refine ⟨_, _, decodeVolume_short _, decodeVolume_long s t,
    Volume.containerPath?_short hs ht hNonempty, rfl, ?_⟩
  have hText : (s ++ ":" ++ t).toList = s.toList ++ ':' :: t.toList := by simp
  have hDot : s = "." ↔ s.toList = ['.'] := by
    rw [← String.toList_inj]
    rfl
  rw [Volume.isNamed, Volume.isNamed, Option.any_some, hText, isHostPath_append, ne_eq, hDot]
  by_cases h : s.toList = ['.']
  · simp [h, isHostPath]
  · simp [h]

theorem volume_forms_agree_iff_data : ':' ∉ "data".toList ∧ ':' ∉ "/var".toList ∧ "/var" ≠ "" ∧
    ∃ short long, decodeVolume (.str ("data" ++ ":" ++ "/var")) = .ok short ∧
      decodeVolume (.map [(.str "source", .str "data"), (.str "target", .str "/var")]) = .ok long ∧
      short.containerPath? = some "/var" ∧ long.containerPath? = some "/var" ∧
      short.isNamed = long.isNamed := by
  obtain ⟨short, long, hShort, hLong, hPath, hSame, hNamed⟩ :=
    volume_forms_agree_iff (s := "data") (t := "/var") (by decide) (by decide) (by decide)
  exact ⟨by decide, by decide, by decide,
    short, long, hShort, hLong, hPath, hSame, hNamed.2 (by decide)⟩

/-- The directory of a project is mounted by its path in the long form, and as a volume with a name
in the short one. -/
theorem isNamed_short_dot_ne_long :
    decodeVolume (.str ".:/app") = .ok (.short ".:/app") ∧
      (Volume.short ".:/app").isNamed = true ∧
      decodeVolume (.map [(.str "source", .str "."), (.str "target", .str "/app")]) =
        .ok (.long none (some ".") (some "/app")) ∧
      (Volume.long none (some ".") (some "/app")).isNamed = false :=
  ⟨rfl, by decide, rfl, by decide⟩

end KubeCompose.Compose
