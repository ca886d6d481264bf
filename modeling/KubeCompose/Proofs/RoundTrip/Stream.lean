import KubeCompose.Manifest.Basic
import KubeCompose.Proofs.RoundTrip.Characters
import KubeCompose.Proofs.RoundTrip.Values

/-!
# Documents that are read back

The text of a list of documents is read as these documents: a scan goes through the lines of one
document after the other, and the markers between them end all blocks.
-/

namespace KubeCompose.Yaml

open Scan

/-- The text of documents behind others. -/
def furtherText (docs : List Yaml) : List Char :=
  docs.flatMap fun v => "---\n".toList ++ nodeLines .document none 0 v

/-- The text of a list of documents. -/
def streamText : List Yaml → List Char
  | [] => []
  | v :: docs => nodeLines .document none 0 v ++ furtherText docs

/-- A document that is read as it is written. -/
structure Readable (v : Yaml) : Prop where
  writable : isWritable false v = true
  tags : tagsSatisfy readsTag v = true
  withinLimits : isReadableValue Node.depthLimit v = true
  keysDiffer : v.keysDiffer = true
  notNull : v.isNull = false

/-! ### Tokens -/

theorem exists_tagText {t : String} (h : readsTag t = true) : ∃ r, tagText t = '!' :: r := by
  obtain ⟨hNonempty, hNul, hKeeps⟩ := readsTag_iff.1 h
  obtain ⟨text, hText, -⟩ := scanTag_tagText [] hNonempty hNul hKeeps rfl
  exact ⟨text, hText⟩

/-- A node behind its tag starts with it. -/
theorem exists_taggedText {t : String} (h : readsTag t = true) :
    {v : Yaml} → isWritable true v = true → ∃ r, nodeLines .document (some t) 0 v = '!' :: r
  | .tagged u v, hWritable => by simp [isWritable] at hWritable
  | .seq (x :: xs), _ | .map (e :: es), _ | .null, _ | .bool _, _ | .int _, _ | .float _, _
  | .str _, _ | .seq [], _ | .map [], _ => by
    obtain ⟨r, hText⟩ := exists_tagText h
    simp [nodeLines, Place.opening, Place.leaf, endLine_eq, Place.tag, Place.gap, hText]

theorem exists_leafText {v : Yaml} {lines : List Char} (h : leafLines? 2 v = some lines)
    (hText : nodeLines .document none 0 v = Place.document.leaf none ((leafLines? 2 v).getD [])) :
    ∃ c r, nodeLines .document none 0 v = c :: r ∧ startsToken c = true := by
  obtain ⟨c, r, hLines, hStart⟩ := (leafText_of_leafLines? (m := 2) (by decide) h).exists_cons
  refine ⟨c, r ++ closing (c :: r), ?_, hStart⟩
  rw [hText, h, Place.leaf, endLine_eq]
  simp [Place.tag, Place.gap, hLines]

/-- A document starts with the start of a token. -/
theorem exists_documentText : {v : Yaml} → isWritable false v = true →
    tagsSatisfy readsTag v = true →
    ∃ c r, nodeLines .document none 0 v = c :: r ∧ startsToken c = true
  | .tagged t v, hWritable, hTags => by
    simp only [isWritable, tagsSatisfy, Bool.and_eq_true] at hWritable hTags
    obtain ⟨r, hText⟩ := exists_taggedText hTags.1 hWritable.2
    exact ⟨'!', r, by rw [nodeLines, hText], by decide⟩
  | .seq (x :: xs), _, _ => by
    obtain ⟨r, hText⟩ := exists_indented_cons 0 '-' (nodeLines .item none 0 x) (itemBlocks 0 xs)
    exact ⟨'-', r, hText, by decide⟩
  | .map (e :: es), hWritable, hTags => by
    simp only [isWritable, tagsSatisfy, Bool.and_eq_true] at hWritable hTags
    have hEntry := readsNode_entries (e :: es) hWritable.2 hTags e (List.mem_cons_self ..)
    exact exists_indented_entries hEntry 0 es
  | .null, _, _ | .bool true, _, _ | .bool false, _, _ | .int _, _, _ | .float _, _, _
  | .str _, _, _ | .seq [], _, _ | .map [], _, _ => exists_leafText rfl rfl

section Run

variable {i l : Nat} {tokens : List Token}

theorem endsBlock_furtherText (docs : List Yaml) : EndsBlock (-1) 0 (furtherText docs) := by
  cases docs with
  | nil => exact .atEnd
  | cons v docs => exact .atMarker _

theorem reaches_document (tokens : List Token) {v : Yaml} (hWritable : isWritable false v = true)
    (hTags : tagsSatisfy readsTag v = true) (docs : List Yaml) :
    ∃ i' l', Reaches
      (inBlock ⟨nodeLines .document none 0 v ++ furtherText docs, i, l, 0⟩ tokens (-1) [] none true)
      (inBlock ⟨furtherText docs, i', l', 0⟩ (tokens ++ nodeTokens .document none v) (-1) [] none
        true) :=
  readsNode none (by simp) v hWritable hTags _ _ .document (endsBlock_furtherText docs)

/-- Further documents are read one after the other. -/
theorem reaches_furtherText (tokens : List Token) (docs : List Yaml)
    (hWritable : ∀ v ∈ docs, isWritable false v = true)
    (hTags : ∀ v ∈ docs, tagsSatisfy readsTag v = true) :
    ∃ i' l', Reaches (inBlock ⟨furtherText docs, i, l, 0⟩ tokens (-1) [] none true)
      (inBlock ⟨[], i', l', 0⟩ (tokens ++ Node.furtherTokens docs) (-1) [] none true) := by
  induction docs generalizing i l tokens with
  | nil =>
    refine ⟨i, l, ?_⟩
    rw [furtherText, Node.furtherTokens, List.flatMap_nil, List.flatMap_nil, List.append_nil]
    exact .refl _
  | cons v docs ih =>
    obtain ⟨hv, hWritable⟩ := List.forall_mem_cons.1 hWritable
    obtain ⟨hTag, hTags⟩ := List.forall_mem_cons.1 hTags
    obtain ⟨c, r, hText, hStart⟩ := exists_documentText hv hTag
    have hMarker := reaches_marker (i := i) (l := l)
      (nodeLines .document none 0 v ++ furtherText docs) tokens true idle_none (fresh_none _)
    have hLine := reaches_newline (i := i + 3) (l := l) (k := 3)
      (nodeLines .document none 0 v ++ furtherText docs) (tokens ++ [.documentStart]) (-1) [] false
      0 (by
        rintro d q hEq
        rw [hText] at hEq
        exact (List.cons.inj hEq).1 ▸ hStart) idle_none (by simp)
    obtain ⟨i₁, l₁, hDocument⟩ := reaches_document (i := i + 3 + 1 + 0) (l := l + 1)
      (tokens ++ [.documentStart]) hv hTag docs
    obtain ⟨i₂, l₂, hRest⟩ := ih (i := i₁) (l := l₁)
      (tokens ++ [.documentStart] ++ nodeTokens .document none v) hWritable hTags
    refine ⟨i₂, l₂, ?_⟩
    simpa [furtherText, Node.furtherTokens] using
      ((hMarker.trans hLine).trans hDocument).trans hRest

end Run

theorem run_streamText (docs : List Yaml) (hWritable : ∀ v ∈ docs, isWritable false v = true)
    (hTags : ∀ v ∈ docs, tagsSatisfy readsTag v = true) {fuel : Nat}
    (hFuel : (streamText docs).length < fuel) :
    (Scan.start (streamText docs)).run fuel = .ok (Node.streamTokens docs) := by
  obtain ⟨i, l, hReaches⟩ : ∃ i l, Reaches (Scan.start (streamText docs))
      (inBlock ⟨[], i, l, 0⟩ (Node.streamTokens docs) (-1) [] none true) := by
    cases docs with
    | nil => exact ⟨0, 0, .refl _⟩
    | cons v docs =>
      obtain ⟨hv, hWritable⟩ := List.forall_mem_cons.1 hWritable
      obtain ⟨hTag, hTags⟩ := List.forall_mem_cons.1 hTags
      obtain ⟨i₁, l₁, hDocument⟩ := reaches_document (i := 0) (l := 0) [] hv hTag docs
      obtain ⟨i₂, l₂, hRest⟩ := reaches_furtherText (i := i₁) (l := l₁)
        (nodeTokens .document none v) docs hWritable hTags
      exact ⟨i₂, l₂, hDocument.trans hRest⟩
  obtain ⟨left, hLeft, hRun⟩ := hReaches fuel hFuel
  obtain ⟨left, rfl⟩ : ∃ n, left = n + 1 := ⟨left - 1, by omega⟩
  rw [hRun, run_end idle_none (fresh_none _)]

theorem printable_streamText (docs : List Yaml) : Printable (streamText docs) := by
  cases docs with
  | nil => exact .nil
  | cons v docs =>
    refine (printable_nodeLines .document none 0 v).append (.flatMap fun w _ => ?_)
    exact .append (by decide) (printable_nodeLines .document none 0 w)

/-- The tokens of written documents. -/
theorem tokens_streamText (docs : List Yaml) (hWritable : ∀ v ∈ docs, isWritable false v = true)
    (hTags : ∀ v ∈ docs, tagsSatisfy readsTag v = true) :
    tokens (String.ofList (streamText docs)) = .ok (Node.streamTokens docs) := by
  have hNone : (streamText docs).find? (!isReadable ·) = none := by
    refine List.find?_eq_none.2 fun c hc => ?_
    simp [isReadable_of_isPrintable (printable_streamText docs c hc)]
  rw [tokens, String.toList_ofList, hNone]
  exact run_streamText docs hWritable hTags (Nat.lt_succ_self _)

/-! ### Documents -/

theorem mapM_document_nodeOf {docs : List Yaml} (h : ∀ v ∈ docs, v.Readable) :
    (docs.map (nodeOf none)).mapM Node.document = .ok docs := by
  induction docs with
  | nil => rfl
  | cons v docs ih =>
    obtain ⟨hv, hDocs⟩ := List.forall_mem_cons.1 h
    rw [List.map_cons, List.mapM_cons, ih hDocs,
      Node.document_nodeOf hv.writable hv.tags hv.withinLimits hv.keysDiffer]
    rfl

/-- Documents that are read as they are written are read from their text. -/
theorem parseDocuments_streamText {docs : List Yaml} (h : ∀ v ∈ docs, v.Readable) :
    Manifest.parseDocuments (String.ofList (streamText docs)) = .ok docs := by
  have hNodes : Node.allOfText (String.ofList (streamText docs)) =
      .ok (docs.map (nodeOf none)) := by
    rw [Node.allOfText, tokens_streamText docs (fun v hv => (h v hv).writable) fun v hv =>
      (h v hv).tags]
    exact Node.ofTokens_streamTokens docs
  have hAll : parseAll (String.ofList (streamText docs)) = .ok docs := by
    rw [parseAll, hNodes]
    exact mapM_document_nodeOf h
  have hKept : docs.filter (fun d => !d.isNull) = docs :=
    List.filter_eq_self.2 fun v hv => by simp [(h v hv).notNull]
  rw [Manifest.parseDocuments, hAll, Except.map, hKept]

theorem toList_join_intersperse (v : Yaml) (docs : List Yaml) :
    (String.join (((v :: docs).map render).intersperse "---\n")).toList =
      streamText (v :: docs) := by
  induction docs generalizing v with
  | nil => simp [streamText, furtherText, render]
  | cons w docs ih =>
    have hRest := ih w
    simp only [List.map_cons, List.intersperse_cons_cons, String.join_cons,
      String.toList_append] at *
    rw [hRest]
    simp [streamText, furtherText, render]

theorem mapM_write_eq_ok_iff {docs : List Yaml} {texts : List String} :
    docs.mapM write = .ok texts ↔
      (∀ v ∈ docs, isWritable false v = true) ∧ texts = docs.map render := by
  induction docs generalizing texts with
  | nil => exact ⟨fun h => ⟨by simp, (Except.ok.inj h).symm⟩, fun h => h.2 ▸ rfl⟩
  | cons v docs ih =>
    rw [List.mapM_cons]
    constructor
    · intro h
      obtain ⟨text, hText, h⟩ := exists_of_bind_eq_ok h
      obtain ⟨rest, hRest, h⟩ := exists_of_bind_eq_ok h
      obtain ⟨hv, rfl⟩ := write_eq_ok_iff.1 hText
      obtain ⟨hDocs, rfl⟩ := ih.1 hRest
      exact ⟨List.forall_mem_cons.2 ⟨hv, hDocs⟩, (Except.ok.inj h).symm⟩
    · rintro ⟨h, rfl⟩
      obtain ⟨hv, hDocs⟩ := List.forall_mem_cons.1 h
      rw [write_eq_ok_iff.2 ⟨hv, rfl⟩, ih.2 ⟨hDocs, rfl⟩]
      rfl

/-- Documents have a text exactly when each of them has one. -/
theorem writeDocuments_eq_ok_iff {docs : List Yaml} {text : String} :
    Manifest.writeDocuments docs = .ok text ↔
      (∀ v ∈ docs, isWritable false v = true) ∧ text = String.ofList (streamText docs) := by
  have hText : String.join ((docs.map render).intersperse "---\n") =
      String.ofList (streamText docs) := by
    cases docs with
    | nil => rfl
    | cons v docs => rw [← toList_join_intersperse, String.ofList_toList]
  constructor
  · intro h
    obtain ⟨texts, hTexts, rfl⟩ := exists_of_map_eq_ok h
    obtain ⟨hDocs, rfl⟩ := mapM_write_eq_ok_iff.1 hTexts
    exact ⟨hDocs, hText⟩
  · rintro ⟨hDocs, rfl⟩
    rw [Manifest.writeDocuments, mapM_write_eq_ok_iff.2 ⟨hDocs, rfl⟩, ← hText]
    rfl

end KubeCompose.Yaml
