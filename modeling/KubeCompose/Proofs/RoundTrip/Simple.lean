import KubeCompose.Proofs.ReadBack
import KubeCompose.Proofs.RoundTrip.Stream
import KubeCompose.Proofs.Sameness
import KubeCompose.Proofs.Yaml

/-!
# Simple documents

A document made of texts, numbers that fit a machine word, sequences, and mappings with different
texts as keys is read from its own text, unless it nests too deep.
-/

namespace KubeCompose.Yaml

open OrderedMap (keys)

/-- A value made of texts, integers of a machine word, sequences, and mappings with different texts
as keys, whose collections nest at most `depth` deep. -/
inductive Simple : Nat → Yaml → Prop
  | str {depth : Nat} (s : String) : Simple depth (.str s)
  | int {depth : Nat} {n : Int} (h : isWord n = true) : Simple depth (.int n)
  | seq {depth : Nat} {items : List Yaml} (h : ∀ v ∈ items, Simple depth v) :
    Simple (depth + 1) (.seq items)
  | map {depth : Nat} {entries : List (Yaml × Yaml)} (hTexts : ∀ e ∈ entries, ∃ s, e.1 = .str s)
    (hDistinct : (keys entries).Nodup) (h : ∀ e ∈ entries, Simple depth e.2) :
    Simple (depth + 1) (.map entries)

namespace Simple

variable {depth : Nat} {v : Yaml}

attribute [simp] str

@[simp] theorem int_iff {n : Int} :
    Simple depth (.int n) ↔ -9223372036854775808 ≤ n ∧ n < 18446744073709551616 := by
  have hWord : isWord n = true ↔ -9223372036854775808 ≤ n ∧ n < 18446744073709551616 := by
    simp only [isWord, Bool.and_eq_true, decide_eq_true_eq]
    exact .rfl
  rw [← hWord]
  exact ⟨fun h => by cases h; assumption, .int⟩

@[simp] theorem seq_iff {items : List Yaml} :
    Simple (depth + 1) (.seq items) ↔ ∀ v ∈ items, Simple depth v :=
  ⟨fun h => by cases h; assumption, .seq⟩

@[simp] theorem fields_iff {entries : List (String × Yaml)} :
    Simple (depth + 1) (fields entries) ↔
      (keys entries).Nodup ∧ ∀ e ∈ entries, Simple depth e.2 := by
  have hKeys : keys (entries.map fun e => (Yaml.str e.1, e.2)) = (keys entries).map Yaml.str := by
    simp [keys]
  have hDistinct : ((keys entries).map Yaml.str).Nodup ↔ (keys entries).Nodup :=
    List.nodup_map_iff fun a b h => Yaml.str.inj h
  have hValues : (∀ e ∈ entries.map fun e => (Yaml.str e.1, e.2), Simple depth e.2) ↔
      ∀ e ∈ entries, Simple depth e.2 := List.forall_mem_map
  rw [fields, ← hDistinct, ← hKeys, ← hValues]
  constructor
  · intro h
    cases h with
    | map _ hNodup hEach => exact ⟨hNodup, hEach⟩
  · rintro ⟨hNodup, hEach⟩
    exact .map (List.forall_mem_map.2 fun e _ => ⟨e.1, rfl⟩) hNodup hEach

theorem listField_iff {key : String} {items : List Yaml} :
    (∀ e ∈ listField key items, Simple (depth + 1) e.2) ↔ ∀ v ∈ items, Simple depth v := by
  cases items with
  | nil => simp [listField]
  | cons v r => simp [listField]

end Simple

/-! ### Reading -/

theorem itemTagsSatisfy_iff {p : String → Bool} (items : List Yaml) :
    itemTagsSatisfy p items = true ↔ ∀ v ∈ items, tagsSatisfy p v = true := by
  induction items with
  | nil => simp [itemTagsSatisfy]
  | cons v r ih => rw [itemTagsSatisfy, Bool.and_eq_true, ih, List.forall_mem_cons]

theorem entryTagsSatisfy_iff {p : String → Bool} (entries : List (Yaml × Yaml)) :
    entryTagsSatisfy p entries = true ↔
      ∀ e ∈ entries, tagsSatisfy p e.1 = true ∧ tagsSatisfy p e.2 = true := by
  induction entries with
  | nil => simp [entryTagsSatisfy]
  | cons e r ih =>
    rw [entryTagsSatisfy, Bool.and_eq_true, Bool.and_eq_true, ih, List.forall_mem_cons]

theorem itemsReadable_iff {depth : Nat} (items : List Yaml) :
    itemsReadable depth items = true ↔ ∀ v ∈ items, isReadableValue depth v = true := by
  induction items with
  | nil => simp [itemsReadable]
  | cons v r ih => rw [itemsReadable, Bool.and_eq_true, ih, List.forall_mem_cons]

theorem entriesReadable_iff {depth : Nat} (entries : List (Yaml × Yaml)) :
    entriesReadable depth entries = true ↔
      ∀ e ∈ entries, isReadableValue depth e.1 = true ∧ isReadableValue depth e.2 = true := by
  induction entries with
  | nil => simp [entriesReadable]
  | cons e r ih =>
    rw [entriesReadable, Bool.and_eq_true, Bool.and_eq_true, ih, List.forall_mem_cons]

/-- Keys that are texts differ when they are different texts. -/
theorem entryKeysDiffer_of_texts {entries : List (Yaml × Yaml)}
    (hTexts : ∀ e ∈ entries, ∃ s, e.1 = .str s) (hDistinct : (keys entries).Nodup)
    (hValues : ∀ e ∈ entries, e.2.keysDiffer = true) : entryKeysDiffer entries = true := by
  have hText : ∀ k ∈ keys entries, ∃ s, k = .str s := by
    intro k hk
    obtain ⟨e, he, rfl⟩ := List.mem_map.1 hk
    exact hTexts e he
  refine entryKeysDiffer_iff.2 ⟨⟨?_, ?_⟩, hValues⟩
  · refine hDistinct.imp_of_mem fun {k j} hk _ hNe => ?_
    obtain ⟨s, rfl⟩ := hText k hk
    rw [Bool.eq_false_iff]
    exact fun hSame => hNe ((str_beq_iff s j).1 hSame).symm
  · intro k hk
    obtain ⟨s, rfl⟩ := hText k hk
    rfl

namespace Simple

variable {depth : Nat} {v : Yaml} (h : Simple depth v)
include h

theorem tagsSatisfy (p : String → Bool) : Yaml.tagsSatisfy p v = true := by
  induction h with
  | str s => rfl
  | int h => rfl
  | seq _ ih =>
    rw [Yaml.tagsSatisfy, itemTagsSatisfy_iff]
    exact ih
  | map hTexts _ _ ih =>
    rw [Yaml.tagsSatisfy, entryTagsSatisfy_iff]
    intro e he
    obtain ⟨s, hText⟩ := hTexts e he
    exact ⟨by rw [hText]; rfl, ih e he⟩

theorem isReadableValue : Yaml.isReadableValue depth v = true := by
  induction h with
  | str s => rfl
  | int h => exact h
  | seq _ ih =>
    rw [Yaml.isReadableValue, itemsReadable_iff]
    exact ih
  | map hTexts _ _ ih =>
    rw [Yaml.isReadableValue, entriesReadable_iff]
    intro e he
    obtain ⟨s, hText⟩ := hTexts e he
    exact ⟨by rw [hText]; rfl, ih e he⟩

theorem keysDiffer : v.keysDiffer = true := by
  induction h with
  | str s => rfl
  | int h => rfl
  | seq _ ih =>
    rw [Yaml.keysDiffer, itemKeysDiffer_iff]
    exact ih
  | map hTexts hDistinct _ ih =>
    rw [Yaml.keysDiffer]
    exact entryKeysDiffer_of_texts hTexts hDistinct ih

end Simple

/-- A document of simple values is read as it is written. -/
theorem Simple.readable {v : Yaml} (h : Simple Node.depthLimit v)
    (hWritable : isWritable false v = true) : v.Readable where
  writable := hWritable
  tags := h.tagsSatisfy _
  withinLimits := h.isReadableValue
  keysDiffer := h.keysDiffer
  notNull := by cases h <;> rfl

/-- Whether a document is read as it is written is seen without its text. -/
instance decidableReadable (v : Yaml) : Decidable v.Readable :=
  decidable_of_iff
    (isWritable false v = true ∧ Yaml.tagsSatisfy readsTag v = true ∧
      Yaml.isReadableValue Node.depthLimit v = true ∧ Yaml.keysDiffer v = true ∧ v.isNull = false)
    ⟨fun ⟨hWritable, hTags, hLimits, hDiffer, hNull⟩ => ⟨hWritable, hTags, hLimits, hDiffer, hNull⟩,
      fun h => ⟨h.writable, h.tags, h.withinLimits, h.keysDiffer, h.notNull⟩⟩

/-- A document that is read as it is written is read from its own text. -/
theorem Readable.readsBack {v : Yaml} (h : v.Readable) : v.ReadsBack := by
  have hText : v.render = String.ofList (streamText [v]) := by
    simp [render, streamText, furtherText]
  rw [ReadsBack, hText]
  exact parseDocuments_streamText (List.forall_mem_singleton.2 h)

end KubeCompose.Yaml
