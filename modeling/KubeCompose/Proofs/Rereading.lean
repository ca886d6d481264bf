import KubeCompose.Proofs.Layers

/-!
# Documents that are laid over settings twice

A document that has been laid over settings changes nothing when it is laid over them again. Each
section is read again from the same document with what was read in the place of what was there
before: what the document names decides in both cases, whatever its shape, and the rest was read
from where it is written now. Only the switch of the registry, which is turned on after the reading,
may be read differently, and is turned on again.
-/

namespace KubeCompose.Yaml

open OrderedMap (find? find?_cons keys isSome_find?)

variable {k v w : Yaml} {key name : String} {lower lower' upper entries : List (Yaml × Yaml)}

/-! ### Keys of merged mappings -/

/-- The keys of a merged mapping are decided by those of the lower one. -/
theorem keys_mergeEntries (h : keys lower = keys lower') (upper : List (Yaml × Yaml)) :
    keys (mergeEntries lower upper) = keys (mergeEntries lower' upper) := by
  induction upper generalizing lower lower' with
  | nil => rwa [mergeEntries, mergeEntries]
  | cons e upper ih =>
    obtain ⟨k, v⟩ := e
    rw [mergeEntries_cons, mergeEntries_cons]
    apply ih
    rw [keys_mergeEntry, keys_mergeEntry, h]

/-- A value with what lies over it, if there is anything. -/
def laid (base : Yaml) : Option Yaml → Yaml
  | none => base
  | some v => merge base v

theorem laid_of_ne_map (h : ∀ es, w ≠ .map es) (v? : Option Yaml) : laid w v? = v?.getD w := by
  cases v? with
  | none => rfl
  | some v => exact merge_of_ne_map h v

/-- What the lower mapping has is in the merged one with what the upper one lays over it. -/
theorem find?_mergeEntries (hKeys : entryKeysDiffer upper = true)
    (hLower : find? lower (.str key) = some w) :
    find? (mergeEntries lower upper) (.str key) = some (laid w (find? upper (.str key))) := by
  cases hUpper : find? upper (.str key) with
  | none => rw [find?_mergeEntries_of_none hKeys hUpper, hLower, laid]
  | some v =>
    rw [find?_mergeEntries_of_some hKeys rfl hUpper, hLower]
    rfl

/-! ### Records that are read once more -/

namespace Decode

variable {σ : Type} {known seen : List String} {set : σ → String → Yaml → Except DecodeError σ}
  {r r' : σ}

/-- A field that was seen does not come again. -/
theorem find?_of_seen (hRead : fieldsFrom known set seen r entries = .ok r')
    (hKnown : name ∈ known) (hSeen : name ∈ seen) : find? entries (.str name) = none := by
  induction entries generalizing seen r with
  | nil => rfl
  | cons e entries ih =>
    obtain ⟨k, v⟩ := e
    rw [fieldsFrom] at hRead
    obtain ⟨g, hName, hRead⟩ := exists_of_bind_eq_ok hRead
    have hKey : k ≠ .str name := by
      rintro rfl
      obtain rfl : name = g := Except.ok.inj hName
      rw [if_pos hKnown, if_pos hSeen] at hRead
      cases hRead
    rw [find?_cons, str_beq_eq_false hKey, if_neg Bool.false_ne_true]
    split at hRead
    · split at hRead
      · cases hRead
      · obtain ⟨s, -, hRead⟩ := exists_of_bind_eq_ok hRead
        exact ih hRead (List.mem_cons_of_mem g hSeen)
    · exact ih hRead hSeen

theorem fieldsFrom_of_known {rest : List (Yaml × Yaml)} (hName : fieldName k = .ok name)
    (hKnown : name ∈ known) (hNew : name ∉ seen) (hSet : set r name v = .ok r') :
    fieldsFrom known set seen r ((k, v) :: rest) =
      fieldsFrom known set (name :: seen) r' rest := by
  rw [fieldsFrom, hName]
  change (if name ∈ known then _ else _) = _
  rw [if_pos hKnown, if_neg hNew, hSet]
  rfl

theorem fieldsFrom_of_unknown {rest : List (Yaml × Yaml)} (hName : fieldName k = .ok name)
    (hUnknown : name ∉ known) :
    fieldsFrom known set seen r ((k, v) :: rest) = fieldsFrom known set seen r rest := by
  rw [fieldsFrom, hName]
  exact if_neg hUnknown

/-- A record can be read from entries with the keys of others from which one was read, when all of
its fields are there with values that can be read. -/
theorem exists_fieldsFrom {others : List (Yaml × Yaml)} (hKeys : keys others = keys entries)
    (hRead : fieldsFrom known set seen r entries = .ok r')
    (hSet : ∀ name ∈ known, name ∉ seen →
      ∃ v, find? others (.str name) = some v ∧ ∀ s, ∃ s', set s name v = .ok s') (s : σ) :
    ∃ s', fieldsFrom known set seen s others = .ok s' := by
  induction entries generalizing others seen r s with
  | nil =>
    obtain rfl := List.map_eq_nil_iff.1 hKeys
    exact ⟨s, rfl⟩
  | cons e entries ih =>
    obtain ⟨k, v⟩ := e
    obtain _ | ⟨⟨k', v'⟩, others⟩ := others
    · cases hKeys
    obtain ⟨hHead, hTail⟩ := List.cons.inj hKeys
    obtain rfl : k' = k := hHead
    replace hTail : keys others = keys entries := hTail
    rw [fieldsFrom] at hRead
    obtain ⟨g, hName, hRead⟩ := exists_of_bind_eq_ok hRead
    have hRest : ∀ name ∈ known, name ∉ seen → name ≠ g →
        ∃ v, find? others (.str name) = some v ∧ ∀ s, ∃ s', set s name v = .ok s' := by
      intro name hKnown hNew hNe
      obtain ⟨u, hFind, hOk⟩ := hSet name hKnown hNew
      have hKey : k' ≠ .str name := by
        rintro rfl
        exact hNe (Except.ok.inj hName)
      rw [find?_cons, str_beq_eq_false hKey, if_neg Bool.false_ne_true] at hFind
      exact ⟨u, hFind, hOk⟩
    split at hRead
    · rename_i hKnown
      split at hRead
      · cases hRead
      · rename_i hNew
        obtain ⟨t, -, hRead⟩ := exists_of_bind_eq_ok hRead
        -- were the name only in a tag, its own key would come later, where the field is refused
        have hKey : k' = .str g := by
          by_contra hKey
          obtain ⟨u, hFind, -⟩ := hSet g hKnown hNew
          rw [find?_cons, str_beq_eq_false hKey, if_neg Bool.false_ne_true] at hFind
          have hGone := find?_of_seen hRead hKnown List.mem_cons_self
          have hHere : (find? entries (.str g)).isSome = true := by
            rw [isSome_find?, ← hTail, ← isSome_find?, hFind, Option.isSome_some]
          rw [hGone] at hHere
          cases hHere
        obtain ⟨u, hFind, hOk⟩ := hSet g hKnown hNew
        rw [hKey, find?_cons, if_pos (str_beq_self g), Option.some.injEq] at hFind
        obtain ⟨s', hSet'⟩ := hOk s
        rw [← hFind] at hSet'
        rw [fieldsFrom_of_known hName hKnown hNew hSet']
        refine ih hTail hRead ?_ s'
        intro name hName' hNotSeen
        rw [List.mem_cons, not_or] at hNotSeen
        exact hRest name hName' hNotSeen.2 hNotSeen.1
    · rename_i hUnknown
      rw [fieldsFrom_of_unknown hName hUnknown]
      refine ih hTail hRead ?_ s
      intro name hName' hNotSeen
      refine hRest name hName' hNotSeen ?_
      rintro rfl
      exact hUnknown hName'

end Decode

end KubeCompose.Yaml

namespace KubeCompose.Settings

open OrderedMap (find? keys)
open Yaml (merge mergeEntries laid exists_of_bind_eq_ok exists_of_map_eq_ok)
open Yaml.Decode (record exists_fieldsFrom)

/-! ### Sections that are read once more -/

variable {c e : Content} {x y z : c.Value} {upper : List (Yaml × Yaml)} {v? : Option Yaml}

/-- Sections are records with a field for each part. -/
theorem Content.exists_record (h : c.isSection = true) :
    ∃ type known default set, c.decode = record type known default set ∧
      ∀ name ∈ known, ∃ (e : Content) (p : Part c e), p.name = name ∧
        ∀ r v x, e.decode v = .ok x → ∃ r', set r name v = .ok r' := by
  have hMap : ∀ {α β : Type} {decode : Yaml.Decoder α} {put : c.Value → α → β}
      (r : c.Value) (v : Yaml) (x : α), decode v = .ok x →
        ∃ b, (decode v).map (put r) = .ok b := by
    intro α β decode put r v x h
    exact ⟨_, congrArg (Except.map (put r)) h⟩
  cases c with
  | quantities =>
    refine ⟨_, _, _, _, rfl, fun name hName => ?_⟩
    fin_cases hName
    exacts [⟨_, .cpu, rfl, hMap⟩, ⟨_, .memory, rfl, hMap⟩]
  | limits =>
    refine ⟨_, _, _, _, rfl, fun name hName => ?_⟩
    fin_cases hName
    exacts [⟨_, .requests, rfl, hMap⟩, ⟨_, .limits, rfl, hMap⟩]
  | resources =>
    refine ⟨_, _, _, _, rfl, fun name hName => ?_⟩
    fin_cases hName
    exacts [⟨_, .service, rfl, hMap⟩, ⟨_, .database, rfl, hMap⟩]
  | programs =>
    refine ⟨_, _, _, _, rfl, fun name hName => ?_⟩
    fin_cases hName
    exacts [⟨_, .docker, rfl, hMap⟩, ⟨_, .kompose, rfl, hMap⟩, ⟨_, .kubectl, rfl, hMap⟩]
  | cluster =>
    refine ⟨_, _, _, _, rfl, fun name hName => ?_⟩
    fin_cases hName
    exacts [⟨_, .namespaceName, rfl, hMap⟩, ⟨_, .context, rfl, hMap⟩,
      ⟨_, .skipTlsVerify, rfl, hMap⟩, ⟨_, .kind, rfl, hMap⟩]
  | registry =>
    refine ⟨_, _, _, _, rfl, fun name hName => ?_⟩
    have hPort : ∀ (r : Registry) v x, Content.port.decode v = .ok x →
        ∃ r', (Yaml.Decode.integer 0 65535 "u16" v).map
          (fun port => { r with port := port.toNat }) = .ok r' := by
      intro r v x h
      obtain ⟨n, hInt, -⟩ := exists_of_map_eq_ok h
      exact ⟨_, congrArg (Except.map _) hInt⟩
    fin_cases hName
    exacts [⟨_, .enabled, rfl, hMap⟩, ⟨_, .url, rfl, hMap⟩, ⟨_, .host, rfl, hMap⟩,
      ⟨_, .port, rfl, hPort⟩, ⟨_, .path, rfl, hMap⟩, ⟨_, .insecure, rfl, hMap⟩,
      ⟨_, .username, rfl, hMap⟩, ⟨_, .password, rfl, hMap⟩]
  | settings =>
    refine ⟨_, _, _, _, rfl, fun name hName => ?_⟩
    fin_cases hName
    exacts [⟨_, .registry, rfl, hMap⟩, ⟨_, .cluster, rfl, hMap⟩, ⟨_, .resources, rfl, hMap⟩,
      ⟨_, .databaseTypes, rfl, hMap⟩, ⟨_, .programs, rfl, hMap⟩]
  | _ => cases h

/-- All values of a section are written under the same keys. -/
theorem Content.exists_encode (h : c.isSection = true) (x y : c.Value) :
    ∃ xs ys, c.encode x = .map xs ∧ c.encode y = .map ys ∧ keys xs = keys ys := by
  cases c with
  | text | optionalText | flag | port | kind | texts => cases h
  | _ => exact ⟨_, _, rfl, rfl, rfl⟩

theorem Part.find?_encode (p : Part c e) {entries : List (Yaml × Yaml)}
    (h : c.encode x = .map entries) :
    find? entries (.str p.name) = some (e.encode (p.get x)) := by
  obtain ⟨-, hAt⟩ := p.writes x
  rw [h, Yaml.at?_cons, Yaml.get?_map, Option.bind_eq_some_iff] at hAt
  obtain ⟨w, hFind, hHere⟩ := hAt
  rw [Yaml.at?_nil] at hHere
  rw [hFind, hHere]

/-- What a part is read from, when a mapping lies over a section. -/
theorem Part.decode_laid (p : Part c e) (hKeys : Yaml.entryKeysDiffer upper = true)
    (hRead : c.decode (merge (c.encode x) (.map upper)) = .ok y) :
    e.decode (laid (e.encode (p.get x)) (find? upper (.str p.name))) = .ok (p.get y) := by
  obtain ⟨lower, hLower, -⟩ := (p.writes x).1.exists_map
  rw [hLower] at hRead
  apply p.reads _ _ _ hRead
  rw [Yaml.at?_merge_cons, Yaml.find?_mergeEntries hKeys (p.find?_encode hLower),
    Option.bind_some, Yaml.at?_nil]

/-- A section over which a mapping lies can be read when each part can, if this is so for another
section. -/
theorem exists_decode_merge (hSection : c.isSection = true)
    (hKeys : Yaml.entryKeysDiffer upper = true)
    (hRead : c.decode (merge (c.encode x) (.map upper)) = .ok y)
    (hParts : ∀ {e : Content} (p : Part c e),
      ∃ a, e.decode (laid (e.encode (p.get z)) (find? upper (.str p.name))) = .ok a) :
    ∃ b, c.decode (merge (c.encode z) (.map upper)) = .ok b := by
  obtain ⟨xs, zs, hx, hz, hSame⟩ := c.exists_encode hSection x z
  obtain ⟨type, known, default, set, hDecode, hSet⟩ := c.exists_record hSection
  rw [hDecode, hx, merge] at hRead
  rw [hDecode, hz, merge]
  apply exists_fieldsFrom (Yaml.keys_mergeEntries hSame.symm upper) hRead
  intro name hName _
  obtain ⟨e, p, rfl, hPart⟩ := hSet name hName
  obtain ⟨a, hValue⟩ := hParts p
  exact ⟨_, Yaml.find?_mergeEntries hKeys (p.find?_encode hz), fun s => hPart s _ a hValue⟩

/-- What lies over a section decides alone about it, unless it is a mapping. -/
theorem laid_cases (v? : Option Yaml) :
    (∃ upper, (∀ base, base.isPlainMap = true → laid base v? = merge base (.map upper)) ∧
      ((∀ v ∈ v?, v.keysDiffer = true) → Yaml.entryKeysDiffer upper = true)) ∨
    ∃ v, ∀ base, laid base v? = v := by
  cases v? with
  | none =>
    refine .inl ⟨[], fun base hBase => ?_, fun _ => rfl⟩
    obtain ⟨entries, rfl⟩ := Yaml.exists_of_isPlainMap hBase
    rw [laid, merge, Yaml.mergeEntries]
  | some v =>
    cases v with
    | map upper => exact .inl ⟨upper, fun _ _ => rfl, fun h => by simpa [Yaml.keysDiffer] using h⟩
    | _ => exact .inr ⟨_, fun base => by rw [laid, merge]; simp⟩

/-- Whether what was read from a document over any value is read again over itself. -/
def Content.Settles (c : Content) : Prop :=
  ∀ (x y : c.Value) (v? : Option Yaml), (∀ v ∈ v?, v.keysDiffer = true) →
    c.decode (laid (c.encode x) v?) = .ok y → c.decode (laid (c.encode y) v?) = .ok y

/-- A single value that was read is read again where it is written. -/
theorem Content.decode_encode_of_decode (h : c.isSection = false) {v : Yaml}
    (hRead : c.decode v = .ok y) : c.decode (c.encode y) = .ok y := by
  cases c with
  | text | flag => rfl
  | optionalText => cases y <;> rfl
  | port =>
    obtain ⟨n, hInt, rfl⟩ := exists_of_map_eq_ok hRead
    rw [Yaml.Decode.integer] at hInt
    split at hInt
    · split at hInt
      · rename_i hBounds
        rw [← Except.ok.inj hInt]
        have hValue : ((Int.toNat _ : Nat) : Int) = _ := Int.toNat_of_nonneg hBounds.1
        simp only [decode, encode, Yaml.Decode.integer, Yaml.untagged, hValue]
        rw [if_pos hBounds]
        rfl
      · cases hInt
    · cases hInt
  | kind =>
    cases y with
    | none => rfl
    | some k => cases k <;> rfl
  | texts => exact mapM_text_str y
  | _ => cases h

theorem Content.settles_of_not_section (h : c.isSection = false) : c.Settles := by
  intro x y v? _ hRead
  rw [Yaml.laid_of_ne_map (encode_ne_map h _)] at hRead ⊢
  cases v? with
  | none => exact decode_encode_of_decode h hRead
  | some v => exact hRead

theorem Part.decode_laid_again (p : Part c e) (h : e.Settles)
    (hKeys : Yaml.entryKeysDiffer upper = true)
    (hRead : c.decode (merge (c.encode x) (.map upper)) = .ok y) :
    e.decode (laid (e.encode (p.get y)) (find? upper (.str p.name))) = .ok (p.get y) :=
  h _ _ _ (fun _ hFind => Yaml.keysDiffer_of_find? hKeys hFind) (p.decode_laid hKeys hRead)

theorem Content.settles_of_parts (h : c.isSection = true)
    (hParts : ∀ {e : Content}, Part c e → e.Settles) : c.Settles := by
  intro x y v? hKeys hRead
  obtain ⟨xs, ys, hx, hy, -⟩ := c.exists_encode h x y
  obtain ⟨upper, hLaid, hUpper⟩ | ⟨v, hLaid⟩ := laid_cases v?
  · replace hUpper := hUpper hKeys
    rw [hLaid _ (by rw [hx]; rfl)] at hRead
    rw [hLaid _ (by rw [hy]; rfl)]
    have hPart : ∀ {e : Content} (p : Part c e),
        e.decode (laid (e.encode (p.get y)) (find? upper (.str p.name))) = .ok (p.get y) :=
      fun p => p.decode_laid_again (hParts p) hUpper hRead
    obtain ⟨z, hAgain⟩ := exists_decode_merge h hUpper hRead fun p => ⟨_, hPart p⟩
    -- each part of the section is what was read from the same place before
    obtain rfl : z = y := by
      apply Part.ext h
      intro e p
      exact Except.ok.inj ((p.decode_laid hUpper hAgain).symm.trans (hPart p))
    exact hAgain
  · rw [hLaid] at hRead ⊢
    exact hRead

/-- How deep sections go. -/
def Content.depth : Content → Nat
  | quantities | programs | cluster | registry => 1
  | limits => 2
  | resources => 3
  | settings => 4
  | _ => 0

theorem Part.depth_lt (p : Part c e) : e.depth < c.depth := by
  cases p <;> decide

theorem Content.settles (c : Content) : c.Settles := by
  cases h : c.isSection with
  | false => exact settles_of_not_section h
  | true =>
    apply settles_of_parts h
    intro e p
    have := p.depth_lt
    exact e.settles
termination_by c.depth

/-! ### Settings that are read once more -/

/-- A part that is the same in another section is read again over that one. -/
theorem Part.get_of_again (p : Part c e) (hKeys : Yaml.entryKeysDiffer upper = true)
    (hRead : c.decode (merge (c.encode x) (.map upper)) = .ok y) {b : c.Value}
    (hAgain : c.decode (merge (c.encode z) (.map upper)) = .ok b) (hSame : p.get z = p.get y) :
    p.get b = p.get y := by
  have hPart := p.decode_laid hKeys hAgain
  rw [hSame, p.decode_laid_again e.settles hKeys hRead] at hPart
  exact (Except.ok.inj hPart).symm

/-- The registry when it is used. -/
def turnedOn (r : Registry) : Registry := { r with enabled := true }

/-- A registry that is turned on is read again like the one before, but for being used. -/
theorem exists_decode_turnedOn {r q : Registry} (hKeys : ∀ v ∈ v?, v.keysDiffer = true)
    (hRead : Registry.decode (laid r.toYaml v?) = .ok q) :
    ∃ b, Registry.decode (laid (turnedOn q).toYaml v?) = .ok b ∧ turnedOn b = turnedOn q := by
  obtain ⟨upper, hLaid, hUpper⟩ | ⟨v, hLaid⟩ := laid_cases v?
  · replace hUpper := hUpper hKeys
    rw [hLaid _ rfl] at hRead ⊢
    have hParts : ∀ {e : Content} (p : Part .registry e),
        ∃ a, e.decode (laid (e.encode (p.get (turnedOn q))) (find? upper (.str p.name))) =
          .ok a := by
      intro e p
      have hPart := p.decode_laid_again e.settles hUpper hRead
      cases p with
      | enabled =>
        rw [Yaml.laid_of_ne_map (Content.encode_ne_map rfl _)] at hPart ⊢
        cases hFind : find? upper (.str (Part.name .enabled)) with
        | none => exact ⟨true, rfl⟩
        | some v =>
          rw [hFind] at hPart
          exact ⟨_, hPart⟩
      | _ => exact ⟨_, hPart⟩
    obtain ⟨b, hAgain⟩ := exists_decode_merge (c := .registry) rfl hUpper hRead hParts
    refine ⟨b, hAgain, Part.ext (c := .registry) rfl ?_⟩
    intro e p
    have hSame := p.get_of_again hUpper hRead hAgain
    cases p with
    | enabled => rfl
    | _ => exact hSame rfl
  · rw [hLaid] at hRead ⊢
    exact ⟨q, hRead, rfl⟩

/-- Settings in which the registry was turned on are read again like those before, but for the
registry being used. -/
theorem exists_decode_switchedOn {s m : Settings} (hKeys : Yaml.entryKeysDiffer upper = true)
    (hRead : decode (s.toYaml.merge (.map upper)) = .ok m) :
    ∃ n, decode (m.switchedOn.toYaml.merge (.map upper)) = .ok n ∧
      n.switchedOn = m.switchedOn := by
  obtain ⟨r, hRegistry, hTurnedOn⟩ := exists_decode_turnedOn
    (fun _ hFind => Yaml.keysDiffer_of_find? hKeys hFind)
    (Part.registry.decode_laid hKeys hRead)
  have hParts : ∀ {e : Content} (p : Part .settings e), ∃ a,
      e.decode (laid (e.encode (p.get m.switchedOn)) (find? upper (.str p.name))) = .ok a := by
    intro e p
    have hPart := p.decode_laid_again e.settles hKeys hRead
    cases p with
    | registry => exact ⟨r, hRegistry⟩
    | _ => exact ⟨_, hPart⟩
  obtain ⟨n, hAgain⟩ := exists_decode_merge (c := .settings) rfl hKeys hRead hParts
  have hNew : n.registry = r :=
    Except.ok.inj ((Part.registry.decode_laid hKeys hAgain).symm.trans hRegistry)
  refine ⟨n, hAgain, Part.ext (c := .settings) rfl ?_⟩
  intro e p
  have hSame := p.get_of_again hKeys hRead hAgain
  cases p with
  | registry => exact (congrArg turnedOn hNew).trans hTurnedOn
  | _ => exact hSame rfl

/-- A document that is laid over settings changes nothing when it is laid over them once more. -/
theorem overlay_overlay {d : Yaml} {s t : Settings} (hKeys : d.keysDiffer = true)
    (h : s.overlay d = .ok t) : t.overlay d = .ok t := by
  obtain ⟨rfl, -⟩ | ⟨upper, m, rfl, hRead, rfl⟩ := overlay_cases h
  · rfl
  · cases hHost : namesHost (.map upper) with
    | false =>
      have hAgain : decode (m.toYaml.merge (.map upper)) = .ok m := by
        apply Content.settings.settles s m (some (.map upper)) _ hRead
        intro v hv
        rwa [← Option.some.inj hv]
      simp [overlay, hHost, hAgain]
    | true =>
      rw [Yaml.keysDiffer] at hKeys
      obtain ⟨n, hAgain, hSame⟩ := exists_decode_switchedOn hKeys hRead
      simp only [if_true, overlay, hAgain, hHost]
      exact congrArg Except.ok hSame

theorem overlayText_overlayText {text : String} {s t : Settings}
    (h : s.overlayText text = .ok t) : t.overlayText text = .ok t := by
  rw [overlayText] at h ⊢
  cases hText : Yaml.parse text with
  | error e => rw [hText] at h; cases h
  | ok d =>
    rw [hText] at h
    obtain ⟨node, -, hDocument⟩ := exists_of_bind_eq_ok hText
    exact overlay_overlay (Yaml.keysDiffer_of_document hDocument) h

end KubeCompose.Settings
