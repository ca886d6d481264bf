import KubeCompose.Proofs.Repeated
import KubeCompose.Proofs.Revising
import KubeCompose.Proofs.RoundTrip.Parsed
import KubeCompose.Proofs.RoundTrip.Simple

/-!
# Revised documents that are read back

A revision changes texts and keys and takes entries away, but it adds no tag and nests nothing
deeper. So what it makes of the documents of a text is read from its own text, like these documents
themselves, as long as their tags are kept.
-/

namespace KubeCompose

open OrderedMap (keys)
open Revise (KeysApart)

theorem OrderedMap.keys_modify {α β : Type} [BEq α] (m : OrderedMap α β) (key : α) (f : β → β) :
    keys (modify m key f) = keys m := by
  induction m with
  | nil => rfl
  | cons e m ih =>
    obtain ⟨k, v⟩ := e
    rw [modify]
    split
    · rfl
    · exact congrArg (k :: ·) ih

namespace Yaml

variable {depth : Nat} {v : Yaml} {entries : List (Yaml × Yaml)} {f g : Yaml → Yaml}

/-! ### Values that can be read -/

/-- A value that is within the limits of a reader in which collections nest at most `depth` deep,
with tags that are read as they are written and with keys that differ in each mapping. -/
structure Legible (depth : Nat) (v : Yaml) : Prop where
  tags : tagsSatisfy readsTag v = true
  withinLimits : isReadableValue depth v = true
  keysDiffer : v.keysDiffer = true

/-- The entries of a mapping of such values. -/
structure LegibleEntries (depth : Nat) (entries : List (Yaml × Yaml)) : Prop where
  apart : KeysApart entries
  each : ∀ e ∈ entries, Legible depth e.1 ∧ Legible depth e.2

theorem Legible.str (s : String) : Legible depth (.str s) := ⟨rfl, rfl, rfl⟩

theorem legible_tagged_iff {tag : String} :
    Legible depth (.tagged tag v) ↔ readsTag tag = true ∧ Legible depth v := by
  constructor
  · rintro ⟨hTags, hLimits, hKeys⟩
    rw [tagsSatisfy, Bool.and_eq_true] at hTags
    exact ⟨hTags.1, hTags.2, hLimits, hKeys⟩
  · rintro ⟨hTag, hTags, hLimits, hKeys⟩
    exact ⟨by rw [tagsSatisfy, hTag, hTags]; rfl, hLimits, hKeys⟩

theorem not_legible_seq {items : List Yaml} : ¬ Legible 0 (.seq items) := fun h =>
  absurd h.withinLimits (by simp [isReadableValue])

theorem not_legible_map : ¬ Legible 0 (.map entries) := fun h =>
  absurd h.withinLimits (by simp [isReadableValue])

theorem legible_seq_iff {items : List Yaml} :
    Legible (depth + 1) (.seq items) ↔ ∀ v ∈ items, Legible depth v := by
  constructor
  · rintro ⟨hTags, hLimits, hKeys⟩ v hv
    rw [tagsSatisfy, itemTagsSatisfy_iff] at hTags
    rw [isReadableValue, itemsReadable_iff] at hLimits
    rw [Yaml.keysDiffer, itemKeysDiffer_iff] at hKeys
    exact ⟨hTags v hv, hLimits v hv, hKeys v hv⟩
  · intro h
    refine ⟨?_, ?_, ?_⟩
    · rw [tagsSatisfy, itemTagsSatisfy_iff]
      exact fun v hv => (h v hv).tags
    · rw [isReadableValue, itemsReadable_iff]
      exact fun v hv => (h v hv).withinLimits
    · rw [Yaml.keysDiffer, itemKeysDiffer_iff]
      exact fun v hv => (h v hv).keysDiffer

/-! ### Entries -/

/-- Each key differs from those behind it and from those before it. -/
theorem LegibleEntries.pairwise (h : LegibleEntries depth entries) :
    entries.Pairwise fun d e => (d.1 == e.1) = false ∧ (e.1 == d.1) = false :=
  h.apart.imp_of_mem fun {d e} hd _ hNe => by
    refine ⟨?_, hNe⟩
    rw [Bool.eq_false_iff] at hNe ⊢
    exact fun hSame => hNe (beq_symm (h.each d hd).1.keysDiffer hSame)

theorem legible_map_iff :
    Legible (depth + 1) (.map entries) ↔ LegibleEntries depth entries := by
  constructor
  · rintro ⟨hTags, hLimits, hKeys⟩
    rw [tagsSatisfy, entryTagsSatisfy_iff] at hTags
    rw [isReadableValue, entriesReadable_iff] at hLimits
    rw [Yaml.keysDiffer, entryKeysDiffer_iff] at hKeys
    obtain ⟨hDiffer, hValues⟩ := hKeys
    refine ⟨List.pairwise_map.1 hDiffer.pairwise_symm, fun e he => ⟨?_, ?_⟩⟩
    · exact ⟨(hTags e he).1, (hLimits e he).1,
        hDiffer.keysDiffer e.1 (OrderedMap.mem_keys_of_mem he)⟩
    · exact ⟨(hTags e he).2, (hLimits e he).2, hValues e he⟩
  · intro h
    refine ⟨?_, ?_, ?_⟩
    · rw [tagsSatisfy, entryTagsSatisfy_iff]
      exact fun e he => ⟨(h.each e he).1.tags, (h.each e he).2.tags⟩
    · rw [isReadableValue, entriesReadable_iff]
      exact fun e he => ⟨(h.each e he).1.withinLimits, (h.each e he).2.withinLimits⟩
    · rw [Yaml.keysDiffer, entryKeysDiffer_iff]
      exact ⟨⟨List.pairwise_map.2 (h.pairwise.imp And.left),
        List.forall_mem_map.2 fun e he => (h.each e he).1.keysDiffer⟩,
        fun e he => (h.each e he).2.keysDiffer⟩

theorem LegibleEntries.insert {key value : Yaml} (h : LegibleEntries depth entries)
    (hKey : Legible depth key) (hValue : Legible depth value) :
    LegibleEntries depth (OrderedMap.insert entries key value) := by
  refine ⟨(Revise.keysApart_insert h.apart key value).1, ?_⟩
  have hEach := h.each
  clear h
  induction entries with
  | nil => exact List.forall_mem_singleton.2 ⟨hKey, hValue⟩
  | cons e entries ih =>
    obtain ⟨k, v⟩ := e
    obtain ⟨hHead, hRest⟩ := List.forall_mem_cons.1 hEach
    rw [OrderedMap.insert]
    split
    · exact List.forall_mem_cons.2 ⟨⟨hHead.1, hValue⟩, hRest⟩
    · exact List.forall_mem_cons.2 ⟨hHead, ih hRest⟩

theorem legibleEntries_ofList (h : ∀ e ∈ entries, Legible depth e.1 ∧ Legible depth e.2) :
    LegibleEntries depth (OrderedMap.ofList entries) :=
  List.foldlRecOn entries _ ⟨.nil, List.forall_mem_nil _⟩ fun _ hm e he =>
    hm.insert (h e he).1 (h e he).2

theorem LegibleEntries.modify (h : LegibleEntries depth entries)
    (hf : ∀ v, Legible depth v → Legible depth (f v)) (key : Yaml) :
    LegibleEntries depth (OrderedMap.modify entries key f) := by
  refine ⟨?_, ?_⟩
  · have hApart : (keys entries).Pairwise fun k j => (j == k) = false :=
      List.pairwise_map.2 h.apart
    rw [← OrderedMap.keys_modify entries key f] at hApart
    exact List.pairwise_map.1 hApart
  · have hEach := h.each
    clear h
    induction entries with
    | nil => exact hEach
    | cons e entries ih =>
      obtain ⟨k, v⟩ := e
      obtain ⟨hHead, hRest⟩ := List.forall_mem_cons.1 hEach
      rw [OrderedMap.modify]
      split
      · exact List.forall_mem_cons.2 ⟨⟨hHead.1, hf v hHead.2⟩, hRest⟩
      · exact List.forall_mem_cons.2 ⟨hHead, ih hRest⟩

theorem LegibleEntries.swapRemove (h : LegibleEntries depth entries) (key : Yaml) :
    LegibleEntries depth (OrderedMap.swapRemove entries key) := by
  rcases OrderedMap.swapRemove_cases entries key with hSame | ⟨e, -, hPerm⟩
  · rwa [hSame]
  · have hPairs := (hPerm.pairwise_iff fun {d e} hNe => hNe.symm).2 h.pairwise
    refine ⟨(List.pairwise_cons.1 hPairs).2.imp And.right, fun d hd => ?_⟩
    exact h.each d (hPerm.mem_iff.1 (List.mem_cons_of_mem _ hd))

/-! ### Changes -/

/-- A change that makes no value one that cannot be read, and neither gives nor takes away a
null. -/
structure KeepsLegible (f : Yaml → Yaml) : Prop where
  legible : ∀ {depth v}, Legible depth v → Legible depth (f v)
  isNull_eq : ∀ v, (f v).isNull = v.isNull

theorem KeepsLegible.comp (hf : KeepsLegible f) (hg : KeepsLegible g) :
    KeepsLegible fun v => f (g v) :=
  ⟨fun h => hf.legible (hg.legible h), fun v => by rw [hf.isNull_eq, hg.isNull_eq]⟩

theorem KeepsLegible.ite {p : Yaml → Prop} [DecidablePred p] (hf : KeepsLegible f) :
    KeepsLegible fun v => if p v then f v else v where
  legible {depth v} h := by
    split
    · exact hf.legible h
    · exact h
  isNull_eq v := by
    split
    · exact hf.isNull_eq v
    · rfl

theorem keepsLegible_foldl {α : Type} {change : α → Yaml → Yaml} {l : List α}
    (h : ∀ a ∈ l, KeepsLegible (change a)) :
    KeepsLegible fun v => l.foldl (fun v a => change a v) v := by
  induction l with
  | nil => exact ⟨fun hv => hv, fun _ => rfl⟩
  | cons a l ih =>
    obtain ⟨hHead, hRest⟩ := List.forall_mem_cons.1 h
    exact (ih hRest).comp hHead

theorem keepsLegible_updateMap {f : List (Yaml × Yaml) → List (Yaml × Yaml)}
    (hf : ∀ {depth entries}, LegibleEntries depth entries → LegibleEntries depth (f entries)) :
    KeepsLegible (updateMap f) where
  legible {depth v} h := by
    induction v using Yaml.updateMap.induct with
    | case1 tag v ih =>
      rw [legible_tagged_iff] at h
      rw [updateMap, legible_tagged_iff]
      exact ⟨h.1, ih h.2⟩
    | case2 entries =>
      cases depth with
      | zero => exact absurd h not_legible_map
      | succ depth => exact legible_map_iff.2 (hf (legible_map_iff.1 h))
    | case3 v hTagged hMap => rwa [updateMap.eq_3 f v hTagged hMap]
  isNull_eq v := by
    induction v using Yaml.updateMap.induct with
    | case1 tag v ih => exact ih
    | case2 entries => rfl
    | case3 v hTagged hMap => rw [updateMap.eq_3 f v hTagged hMap]

theorem KeepsLegible.map_seq (hf : KeepsLegible f) {items : List Yaml}
    (h : Legible depth (.seq items)) : Legible depth (.seq (items.map f)) := by
  cases depth with
  | zero => exact absurd h not_legible_seq
  | succ depth =>
    rw [legible_seq_iff] at h ⊢
    exact List.forall_mem_map.2 fun v hv => hf.legible (h v hv)

theorem KeepsLegible.updateSeq (hf : KeepsLegible f) : KeepsLegible (updateSeq f) where
  legible {depth v} h := by
    induction v using Yaml.updateSeq.induct with
    | case1 tag v ih =>
      rw [legible_tagged_iff] at h
      rw [Yaml.updateSeq, legible_tagged_iff]
      exact ⟨h.1, ih h.2⟩
    | case2 items => exact hf.map_seq h
    | case3 v hTagged hSeq => rwa [Yaml.updateSeq.eq_3 f v hTagged hSeq]
  isNull_eq v := by
    induction v using Yaml.updateSeq.induct with
    | case1 tag v ih => exact ih
    | case2 items => rfl
    | case3 v hTagged hSeq => rw [Yaml.updateSeq.eq_3 f v hTagged hSeq]

theorem KeepsLegible.updateKey (hf : KeepsLegible f) (key : String) :
    KeepsLegible (updateKey key f) :=
  keepsLegible_updateMap fun h => h.modify (fun _ => hf.legible) (.str key)

theorem keepsLegible_setKey (key value : String) : KeepsLegible (setKey key (.str value)) :=
  keepsLegible_updateMap fun h => h.insert (.str key) (.str value)

theorem keepsLegible_removeKey (key : String) : KeepsLegible (removeKey key) :=
  keepsLegible_updateMap fun h => h.swapRemove (.str key)

end Yaml

namespace Revise

open Yaml (Legible KeepsLegible)

variable {f : Yaml → Yaml}

theorem keepsLegible_changeAt (hf : KeepsLegible f) (path : List Step) :
    KeepsLegible (changeAt f path) := by
  induction path with
  | nil => exact hf
  | cons step path ih =>
    cases step with
    | key name => exact ih.updateKey name
    | each =>
      refine ⟨fun {depth v} h => ?_, fun v => ?_⟩
      · cases v with
        | seq items => exact ih.map_seq h
        | _ => exact h
      · cases v <;> rfl

theorem keepsLegible_dashText : KeepsLegible dashText where
  legible {depth v} h := by
    cases v with
    | str s => exact .str (dashed s)
    | _ => exact h
  isNull_eq v := by cases v <;> rfl

theorem legible_dashedKey {depth : Nat} {k : Yaml} (h : Legible depth k) :
    Legible depth (dashedKey k) := by
  cases k with
  | str s => exact .str (dashed s)
  | _ => exact h

theorem keepsLegible_dashKeys : KeepsLegible dashKeys where
  legible {depth v} h := by
    cases v with
    | map entries =>
      cases depth with
      | zero => exact absurd h Yaml.not_legible_map
      | succ depth =>
        rw [Yaml.legible_map_iff] at h
        rw [dashKeys_map, Yaml.legible_map_iff]
        refine Yaml.legibleEntries_ofList (List.forall_mem_map.2 fun e he => ⟨?_, (h.each e he).2⟩)
        exact legible_dashedKey (h.each e he).1
    | _ => exact h
  isNull_eq v := by cases v <;> rfl

theorem keepsLegible_moveImage (registry : String) : KeepsLegible (moveImage registry) where
  legible {depth v} h := by
    rw [moveImage]
    split
    · exact h
    · dsimp only
      split
      · exact h
      · exact .str _
  isNull_eq v := by
    rw [moveImage]
    split
    · rfl
    · rename_i current hText
      dsimp only
      split
      · rfl
      · rw [Yaml.asText?] at hText
        rw [Yaml.isNull, Yaml.isNull]
        cases hLeaf : v.untagged <;> simp [hLeaf] at hText ⊢
        rfl

theorem keepsLegible_moveInPod (registry : String) : KeepsLegible (moveInPod registry) := by
  have hListed : ∀ list, KeepsLegible (moveListed registry list) := fun list =>
    (((keepsLegible_moveImage registry).updateKey "image").updateSeq).updateKey list
  exact (hListed "initContainers").comp (hListed "containers")

theorem keepsLegible_dashRules : ∀ rule ∈ dashRules, KeepsLegible rule.2 := by
  simp only [dashRules, List.forall_mem_cons]
  exact ⟨keepsLegible_dashText, keepsLegible_dashKeys, keepsLegible_dashKeys,
    keepsLegible_dashText, keepsLegible_dashText, keepsLegible_dashText, keepsLegible_dashText,
    keepsLegible_dashText, keepsLegible_dashText, List.forall_mem_nil _⟩

theorem keepsLegible_run {a : Pass} (h : KeepsLegible a.change) : KeepsLegible a.run :=
  (keepsLegible_changeAt h a.path).ite

theorem keepsLegible_demoted : KeepsLegible demoted :=
  (((Yaml.keepsLegible_removeKey "strategy").comp
      (Yaml.keepsLegible_removeKey "replicas")).updateKey "spec").comp <|
    (Yaml.keepsLegible_removeKey "status").comp <|
      (Yaml.keepsLegible_setKey "apiVersion" "apps/v1").comp
        (Yaml.keepsLegible_setKey "kind" "DaemonSet")

theorem keepsLegible_toDaemonSet : KeepsLegible toDaemonSet := keepsLegible_demoted.ite

end Revise

open Yaml (KeepsLegible)

namespace Manifest.Revision

variable {o : Revision} {n : String}

theorem keepsLegible_passes (o : Revision) : ∀ a ∈ o.passes, KeepsLegible a.change := by
  intro a ha
  rw [passes, List.mem_append, List.mem_append] at ha
  rcases ha with (ha | ha) | ha
  · obtain ⟨name, -, rfl⟩ := List.mem_map.1 ha
    exact Yaml.keepsLegible_setKey "namespace" name
  · obtain ⟨registry, -, rfl⟩ := List.mem_map.1 ha
    exact Revise.keepsLegible_moveInPod registry
  · obtain ⟨rule, hRule, rfl⟩ := List.mem_map.1 ha
    exact Revise.keepsLegible_dashRules rule hRule

theorem keepsLegible_revised (o : Revision) : KeepsLegible o.revised := by
  have hRevised : o.revised = fun d => o.passes.foldl (fun d a => a.run d) d :=
    funext o.revised_eq_foldl
  rw [hRevised]
  exact Yaml.keepsLegible_foldl fun a ha => Revise.keepsLegible_run (o.keepsLegible_passes a ha)

/-- Whatever name a manifest has, each of its documents is revised by one change that makes none of
them one that cannot be read. -/
theorem exists_keepsLegible_transformed (o : Revision) (n : String) :
    ∃ f, KeepsLegible f ∧ ∀ documents, o.transformed n documents = documents.map f := by
  by_cases hDaemon : (o.daemonName? n).isSome = true
  · refine ⟨_, Revise.keepsLegible_toDaemonSet.comp o.keepsLegible_revised, fun documents => ?_⟩
    rw [transformed, if_pos hDaemon, List.map_map]
    rfl
  · exact ⟨_, o.keepsLegible_revised, fun documents => by rw [transformed, if_neg hDaemon]⟩

/-- The revised documents of a text are read from their own text when the tags in it are kept. -/
theorem parseDocuments_transformed {text new : String} {documents : List Yaml}
    (hRead : parseDocuments text = .ok documents)
    (hTags : ∀ d ∈ documents, Yaml.tagsSatisfy Yaml.keepsTag d = true)
    (hWrite : writeDocuments (o.transformed n documents) = .ok new) :
    parseDocuments new = .ok (o.transformed n documents) := by
  obtain ⟨f, hf, hTransformed⟩ := o.exists_keepsLegible_transformed n
  rw [hTransformed] at hWrite ⊢
  obtain ⟨hWritable, rfl⟩ := Yaml.writeDocuments_eq_ok_iff.1 hWrite
  refine Yaml.parseDocuments_streamText fun d' hd' => ?_
  obtain ⟨d, hd, rfl⟩ := List.mem_map.1 hd'
  obtain ⟨hParsed, hKeys, hNull⟩ := Yaml.parsed_of_parseDocuments hRead d hd
  have hLegible : Yaml.Legible Yaml.Node.depthLimit d :=
    ⟨Yaml.tagsSatisfy_and d hParsed.tags (hTags d hd), hParsed.withinLimits, hKeys⟩
  obtain ⟨hNewTags, hLimits, hDiffer⟩ := hf.legible hLegible
  exact ⟨hWritable _ hd', hNewTags, hLimits, hDiffer, (hf.isNull_eq d).trans hNull⟩

end Manifest.Revision

end KubeCompose
