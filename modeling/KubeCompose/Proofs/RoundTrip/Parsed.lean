import KubeCompose.Proofs.RoundTrip.Stream
import KubeCompose.Proofs.RoundTrip.ZeroFree

/-!
# What a text is read as

A value that is read is within the limits of the reader, and the tags in it are neither empty nor
hold a null character. So the documents of a text are read from their own text, as long as their
tags are written as they were read.
-/

namespace KubeCompose.Yaml

/-- Whether a tag may have been read: it is not empty and holds no null character. -/
def isParsedTag (tag : String) : Bool := tag != "" && !tag.toList.contains '\x00'

/-- A value as it is read. -/
structure Parsed (depth : Nat) (v : Yaml) : Prop where
  withinLimits : isReadableValue depth v = true
  tags : tagsSatisfy isParsedTag v = true

/-! ### Tags -/

namespace Node

theorem isParsedTag_of_localTag? {tag : TagBytes} {name : String} (hFree : tag.contains 0 = false)
    (h : localTag? tag = some name) : isParsedTag name = true := by
  obtain ⟨text, hText, hName⟩ := Option.bind_eq_some_iff.1 h
  have hBytes : text.toList.flatMap String.utf8EncodeChar = tag := by
    have hUtf8 : text.toUTF8 = ⟨tag.toArray⟩ := by
      unfold String.fromUTF8? at hText
      split at hText
      · rw [← Option.some.inj hText]
        rfl
      · cases hText
    rw [← toUTF8_toList_ofList, String.ofList_toList, hUtf8, toList_eq_data_toList]
  have hNul : '\x00' ∉ text.toList := by
    intro hMem
    have hZero : (0 : UInt8) ∈ tag := hBytes ▸ List.mem_flatMap.2 ⟨_, hMem, by decide⟩
    rw [List.contains_eq_mem, decide_eq_false_iff_not] at hFree
    exact hFree hZero
  obtain ⟨hNonempty, hChars⟩ : name ≠ "" ∧ ∀ c ∈ name.toList, c ∈ text.toList ∨ c = '!' := by
    split at hName
    · rw [← Option.some.inj hName]
      exact ⟨by decide, by simp⟩
    · rename_i c r hList
      rw [← Option.some.inj hName, hList]
      exact ⟨by simp, by simp +contextual⟩
    · rename_i r hOne hTwo hList
      rw [← Option.some.inj hName, hList]
      refine ⟨fun hEq => hOne ?_, by simp +contextual⟩
      exact String.ofList_eq_empty_iff.1 hEq
    · cases hName
  have hNone : '\x00' ∉ name.toList := fun hMem => by
    rcases hChars _ hMem with hMem | hEq
    · exact hNul hMem
    · exact absurd hEq (by decide)
  simp [isParsedTag, hNonempty, hNone]

/-! ### Values -/

variable {depth : Nat}

theorem parsed_ofPlain? {s : String} {v : Yaml} (h : ofPlain? s = some v) : Parsed depth v := by
  unfold ofPlain? at h
  dsimp only at h
  split at h
  · exact Option.some.inj h ▸ ⟨rfl, rfl⟩
  · split at h
    · exact Option.some.inj h ▸ ⟨rfl, rfl⟩
    · split at h
      · rename_i n hRead
        rw [← Option.some.inj h]
        exact ⟨isWord_of_readInteger hRead, rfl⟩
      · cases h
      · split at h
        · exact Option.some.inj h ▸ ⟨rfl, rfl⟩
        · split at h
          · rename_i x hRead
            rw [← Option.some.inj h]
            exact ⟨isCanonical_of_readFloat? hRead, rfl⟩
          · exact Option.some.inj h ▸ ⟨rfl, rfl⟩

theorem gives_taggedScalar (tag text : String) : Gives (Parsed depth) (taggedScalar tag text) := by
  unfold taggedScalar
  refine .ite ?_ (.ite ?_ (.ite ?_ (.ite (.ite (.ok ⟨rfl, rfl⟩) (.throw _)) (.ok ⟨rfl, rfl⟩))))
  · split
    · exact .ok ⟨rfl, rfl⟩
    · exact .throw _
  · split
    · rename_i n hRead
      exact .ok ⟨isWord_of_readInteger hRead, rfl⟩
    · exact .throw _
    · exact .throw _
  · split
    · rename_i x hRead
      exact .ok ⟨isCanonical_of_readFloat? hRead, rfl⟩
    · exact .throw _

/-- A local tag stays with its value. -/
theorem parsed_withName {tag : TagBytes} {name : String} {v : Yaml} (h : Parsed depth v)
    (hFree : tag.contains 0 = false) (hName : localTag? tag = some name) :
    Parsed depth (.tagged name v) :=
  ⟨h.withinLimits, by rw [tagsSatisfy, isParsedTag_of_localTag? hFree hName, h.tags]; rfl⟩

theorem parsed_withTag {props : Properties} {v : Yaml} (h : Parsed depth v)
    (hFree : props.zeroFree = true) : Parsed depth (withTag props.tag v) := by
  unfold withTag
  split
  · rename_i name hName
    obtain ⟨tag, hTag, hLocal⟩ := Option.bind_eq_some_iff.1 hName
    rw [Properties.zeroFree, hTag] at hFree
    exact parsed_withName h (by simpa using hFree) hLocal
  · exact h

theorem gives_scalarValue {props : Properties} (hFree : props.zeroFree = true) (text : String)
    (plain : Bool) : Gives (Parsed depth) (scalarValue props.tag text plain) := by
  have hUntagged : Gives (Parsed depth) (scalarValue none text plain) := by
    refine .ite ?_ (.ok ⟨rfl, rfl⟩)
    split
    · rename_i v hPlain
      exact .ok (parsed_ofPlain? hPlain)
    · exact .throw _
  unfold scalarValue
  dsimp only
  split
  · exact hUntagged
  · rename_i tag hTag
    refine .ite ?_ (gives_taggedScalar _ text)
    rw [Properties.zeroFree, hTag] at hFree
    split
    · rename_i name hName
      intro v hv
      obtain ⟨w, hw, rfl⟩ := exists_of_map_eq_ok hv
      exact parsed_withName (hUntagged w hw) (by simpa using hFree) hName
    · exact hUntagged

/-! ### Anchors -/

/-- Whether no tag in an anchored node holds a zero byte. -/
abbrev AnchorsFree (anchors : List (Nat × Node)) : Prop := ∀ a ∈ anchors, a.2.zeroFree = true

theorem anchorsFree_own {n : Node} (h : n.zeroFree = true) :
    AnchorsFree (match n.anchor? with
      | some a => [(a, n)]
      | none => []) := by
  split
  · exact List.forall_mem_singleton.2 h
  · simp [AnchorsFree]

mutual

theorem anchorsFree_anchored : (n : Node) → n.zeroFree = true → AnchorsFree n.anchored
  | .alias a, _ => by simp [anchored, anchor?, AnchorsFree]
  | .scalar p text plain, h => by
    unfold anchored
    exact List.forall_mem_append.2 ⟨anchorsFree_own h, by simp⟩
  | .seq p items, h => by
    rw [anchored]
    rw [zeroFree, Bool.and_eq_true] at h
    exact List.forall_mem_append.2 ⟨anchorsFree_own (by simp [zeroFree, h]),
      anchorsFree_items items h.2⟩
  | .map p entries, h => by
    rw [anchored]
    rw [zeroFree, Bool.and_eq_true] at h
    exact List.forall_mem_append.2 ⟨anchorsFree_own (by simp [zeroFree, h]),
      anchorsFree_entries entries h.2⟩

theorem anchorsFree_items : (items : List Node) → ItemsFree items →
    AnchorsFree (anchoredItems items)
  | [], _ => by simp [anchoredItems, AnchorsFree]
  | n :: r, h => by
    simp only [ItemsFree, itemsZeroFree, Bool.and_eq_true] at h
    rw [anchoredItems]
    exact List.forall_mem_append.2 ⟨anchorsFree_anchored n h.1, anchorsFree_items r h.2⟩

theorem anchorsFree_entries : (entries : List (Node × Node)) → EntriesFree entries →
    AnchorsFree (anchoredEntries entries)
  | [], _ => by simp [anchoredEntries, AnchorsFree]
  | (k, v) :: r, h => by
    simp only [EntriesFree, entriesZeroFree, Bool.and_eq_true] at h
    rw [anchoredEntries]
    exact List.forall_mem_append.2 ⟨List.forall_mem_append.2
      ⟨anchorsFree_anchored k h.1.1, anchorsFree_anchored v h.1.2⟩, anchorsFree_entries r h.2⟩

end

/-! ### Nodes -/

/-- A builder that builds what satisfies `Q`. -/
abbrev Builds {α : Type} (Q : α → Prop) (x : Builder α) : Prop :=
  ∀ left, Gives (fun p => Q p.1) (x.run left)

theorem builds_bind {α β : Type} {P : α → Prop} {Q : β → Prop} {x : Builder α}
    {f : α → Builder β} (hx : Builds P x) (hf : ∀ a, P a → Builds Q (f a)) :
    Builds Q (x >>= f) := by
  intro left
  rw [StateT.run_bind]
  exact .bind (hx left) fun p hp => hf p.1 hp p.2

theorem builds_mapM {α β : Type} {Q : β → Prop} {f : α → Builder β} {l : List α}
    (h : ∀ a ∈ l, Builds Q (f a)) : Builds (fun bs => ∀ b ∈ bs, Q b) (l.mapM f) := by
  induction l with
  | nil => exact fun _ => .ok (by simp)
  | cons a l ih =>
    obtain ⟨ha, hl⟩ := List.forall_mem_cons.1 h
    rw [List.mapM_cons]
    exact builds_bind ha fun b hb => builds_bind (ih hl) fun bs hbs _ =>
      .ok (List.forall_mem_cons.2 ⟨hb, hbs⟩)

theorem parsed_seq {items : List Yaml} (h : ∀ v ∈ items, Parsed depth v) :
    Parsed (depth + 1) (.seq items) := by
  have hItems : itemsReadable depth items = true ∧ itemTagsSatisfy isParsedTag items = true := by
    induction items with
    | nil => exact ⟨rfl, rfl⟩
    | cons v r ih =>
      obtain ⟨hv, hr⟩ := List.forall_mem_cons.1 h
      simp [itemsReadable, itemTagsSatisfy, hv.withinLimits, hv.tags, ih hr]
  exact ⟨hItems.1, hItems.2⟩

theorem parsed_map {entries : List (Yaml × Yaml)}
    (h : ∀ e ∈ entries, Parsed depth e.1 ∧ Parsed depth e.2) :
    Parsed (depth + 1) (.map entries) := by
  have hEntries : entriesReadable depth entries = true ∧
      entryTagsSatisfy isParsedTag entries = true := by
    induction entries with
    | nil => exact ⟨rfl, rfl⟩
    | cons e r ih =>
      obtain ⟨k, v⟩ := e
      obtain ⟨⟨hk, hv⟩, hr⟩ := List.forall_mem_cons.1 h
      simp [entriesReadable, entryTagsSatisfy, hk.withinLimits, hk.tags, hv.withinLimits, hv.tags,
        ih hr]
  exact ⟨hEntries.1, hEntries.2⟩

theorem forall_of_entriesFree : {entries : List (Node × Node)} → EntriesFree entries →
    ∀ e ∈ entries, e.1.zeroFree = true ∧ e.2.zeroFree = true
  | [], _ => by simp
  | (k, v) :: r, h => by
    simp only [EntriesFree, entriesZeroFree, Bool.and_eq_true] at h
    exact List.forall_mem_cons.2 ⟨h.1, forall_of_entriesFree h.2⟩

section Nodes

variable {anchors : List (Nat × Node)} (hAnchors : AnchorsFree anchors)
include hAnchors

theorem builds_target {n : Node} (h : n.zeroFree = true) :
    Builds (fun m => m.zeroFree = true) (target anchors n) := by
  intro left
  cases n with
  | «alias» a =>
    cases left with
    | zero => exact .throw _
    | succ left =>
      cases hFound : anchors.reverse.lookup a with
      | none =>
        have hRun : (target anchors (.alias a)).run (left + 1) = .error (.unknownAnchor "") := by
          simp [target, hFound]
          rfl
        rw [hRun]
        exact .throw _
      | some m =>
        have hRun : (target anchors (.alias a)).run (left + 1) = .ok (m, left) := by
          simp [target, hFound]
          rfl
        obtain ⟨before, behind, hText, -⟩ := List.lookup_eq_some_iff.1 hFound
        have hMem : (a, m) ∈ anchors.reverse := hText ▸ List.mem_append_right _ List.mem_cons_self
        rw [hRun]
        exact .ok (hAnchors (a, m) (List.mem_reverse.1 hMem))
  | _ => exact .ok h

/-- A value is as it is read when those inside it are. -/
theorem builds_value_of (hInside : ∀ d, depth = d + 1 → ∀ n : Node, n.zeroFree = true →
      Builds (Parsed d) (n.value anchors d)) {n : Node} (h : n.zeroFree = true) :
    Builds (Parsed depth) (n.value anchors depth) := by
  unfold value
  refine builds_bind (builds_target hAnchors h) fun m hm => ?_
  split
  · exact fun _ => .throw _
  · rename_i props text plain
    rw [zeroFree] at hm
    exact fun _ => .bind (gives_scalarValue hm text plain) fun _ hv => .ok hv
  · rename_i props items
    simp only [zeroFree, Bool.and_eq_true] at hm
    split
    · exact fun _ => .throw _
    · rename_i d
      refine builds_bind (builds_mapM fun a ha => ?_)
        fun vs hvs _ => .ok (parsed_withTag (parsed_seq hvs) hm.1)
      exact hInside d rfl a (forall_of_itemsFree hm.2 a ha)
  · rename_i props entries
    simp only [zeroFree, Bool.and_eq_true] at hm
    split
    · exact fun _ => .throw _
    · rename_i d
      refine builds_bind (builds_mapM fun a ha => ?_)
        fun vs hvs _ => .ok (parsed_withTag (parsed_map hvs) hm.1)
      obtain ⟨hKey, hValue⟩ := forall_of_entriesFree hm.2 a ha
      exact builds_bind (hInside d rfl a.1 hKey) fun k hk =>
        builds_bind (hInside d rfl a.2 hValue) fun v hv _ => .ok ⟨hk, hv⟩

theorem builds_value (depth : Nat) {n : Node} (h : n.zeroFree = true) :
    Builds (Parsed depth) (n.value anchors depth) := by
  induction depth generalizing n with
  | zero => exact builds_value_of hAnchors (by simp) h
  | succ depth ih =>
    refine builds_value_of hAnchors (fun d hd n hn => ?_) h
    obtain rfl : depth = d := by omega
    exact ih hn

end Nodes

theorem gives_document {n : Node} (h : n.zeroFree = true) :
    Gives (fun v => Parsed depthLimit v ∧ v.keysDiffer = true) n.document := by
  refine .bind (P := Parsed depthLimit) ?_ fun v hv => ?_
  · intro v hv
    obtain ⟨p, hRun, rfl⟩ := exists_of_map_eq_ok hv
    exact builds_value (anchorsFree_anchored n h) depthLimit h _ p hRun
  · split
    · rename_i hKeys
      exact .ok ⟨hv, hKeys⟩
    · exact .throw _

end Node

/-! ### Documents -/

theorem mem_mapM {ε α β : Type} {f : α → Except ε β} {l : List α} {bs : List β}
    (h : l.mapM f = .ok bs) : ∀ b ∈ bs, ∃ a ∈ l, f a = .ok b := by
  induction l generalizing bs with
  | nil =>
    obtain rfl := Except.ok.inj h
    simp
  | cons a l ih =>
    rw [List.mapM_cons] at h
    obtain ⟨b, hb, h⟩ := exists_of_bind_eq_ok h
    obtain ⟨r, hr, h⟩ := exists_of_bind_eq_ok h
    obtain rfl := Except.ok.inj h
    refine List.forall_mem_cons.2 ⟨⟨a, List.mem_cons_self, hb⟩, fun c hc => ?_⟩
    obtain ⟨d, hd, hEq⟩ := ih hr c hc
    exact ⟨d, List.mem_cons_of_mem _ hd, hEq⟩

/-- The documents of a text are as they are read. -/
theorem parsed_of_parseDocuments {text : String} {docs : List Yaml}
    (h : Manifest.parseDocuments text = .ok docs) :
    ∀ v ∈ docs, Parsed Node.depthLimit v ∧ v.keysDiffer = true ∧ v.isNull = false := by
  obtain ⟨all, hAll, rfl⟩ := exists_of_map_eq_ok h
  obtain ⟨nodes, hNodes, hAll⟩ := exists_of_bind_eq_ok hAll
  intro v hv
  obtain ⟨hMem, hNull⟩ := List.mem_filter.1 hv
  obtain ⟨n, hn, hDocument⟩ := mem_mapM hAll v hMem
  obtain ⟨hParsed, hKeys⟩ := Node.gives_document (Node.gives_allOfText text nodes hNodes n hn) v
    hDocument
  exact ⟨hParsed, hKeys, by simpa using hNull⟩

mutual

theorem tagsSatisfy_and {p q : String → Bool} : (v : Yaml) → tagsSatisfy p v = true →
    tagsSatisfy q v = true → tagsSatisfy (fun t => p t && q t) v = true
  | .tagged t v, hp, hq => by
    simp only [tagsSatisfy, Bool.and_eq_true] at hp hq ⊢
    exact ⟨⟨hp.1, hq.1⟩, tagsSatisfy_and v hp.2 hq.2⟩
  | .seq items, hp, hq => by
    rw [tagsSatisfy] at hp hq ⊢
    exact itemTagsSatisfy_and items hp hq
  | .map entries, hp, hq => by
    rw [tagsSatisfy] at hp hq ⊢
    exact entryTagsSatisfy_and entries hp hq
  | .null, _, _ | .bool _, _, _ | .int _, _, _ | .float _, _, _ | .str _, _, _ => rfl

theorem itemTagsSatisfy_and {p q : String → Bool} : (items : List Yaml) →
    itemTagsSatisfy p items = true → itemTagsSatisfy q items = true →
      itemTagsSatisfy (fun t => p t && q t) items = true
  | [], _, _ => rfl
  | v :: r, hp, hq => by
    simp only [itemTagsSatisfy, Bool.and_eq_true] at hp hq ⊢
    exact ⟨tagsSatisfy_and v hp.1 hq.1, itemTagsSatisfy_and r hp.2 hq.2⟩

theorem entryTagsSatisfy_and {p q : String → Bool} : (entries : List (Yaml × Yaml)) →
    entryTagsSatisfy p entries = true → entryTagsSatisfy q entries = true →
      entryTagsSatisfy (fun t => p t && q t) entries = true
  | [], _, _ => rfl
  | (k, v) :: r, hp, hq => by
    simp only [entryTagsSatisfy, Bool.and_eq_true] at hp hq ⊢
    exact ⟨⟨tagsSatisfy_and k hp.1.1 hq.1.1, tagsSatisfy_and v hp.1.2 hq.1.2⟩,
      entryTagsSatisfy_and r hp.2 hq.2⟩

end

/-- A document of a text whose tags are kept can be read again. -/
theorem readable_of_parsed {v : Yaml} (hParsed : Parsed Node.depthLimit v)
    (hKeys : v.keysDiffer = true) (hNull : v.isNull = false)
    (hTags : tagsSatisfy keepsTag v = true) (hWritable : isWritable false v = true) :
    v.Readable :=
  ⟨hWritable, tagsSatisfy_and v hParsed.tags hTags, hParsed.withinLimits, hKeys, hNull⟩

end KubeCompose.Yaml
