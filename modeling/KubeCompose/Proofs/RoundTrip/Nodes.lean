import KubeCompose.Proofs.RoundTrip.Render
import KubeCompose.Yaml.Document

/-!
# The nodes of a written document

The tokens of a written node are read as `nodeOf`, which has the tags of the value and the texts of
its scalars.
-/

namespace KubeCompose.Yaml

/-- A scalar as a node. -/
def scalarNode (props : Properties) : Yaml → Node
  | .str s => .scalar props s (decide (styleOf s = .plain))
  | v => .scalar props (String.ofList ((leafLines? 0 v).getD [])) true

mutual

/-- The node of a value behind a tag. -/
def nodeOf (tag : Option String) : Yaml → Node
  | .tagged t v => nodeOf (some t) v
  | .seq xs => .seq ⟨none, tag.map tagBytes⟩ (itemNodes xs)
  | .map es => .map ⟨none, tag.map tagBytes⟩ (entryNodes es)
  | v => scalarNode ⟨none, tag.map tagBytes⟩ v

/-- The nodes of the items of a sequence. -/
def itemNodes : List Yaml → List Node
  | [] => []
  | x :: xs => nodeOf none x :: itemNodes xs

/-- The nodes of the entries of a mapping. -/
def entryNodes : List (Yaml × Yaml) → List (Node × Node)
  | [] => []
  | (k, v) :: es => (nodeOf none k, nodeOf none v) :: entryNodes es

end

/-- Whether a sequence at a place may stand in the column of the mapping around it. -/
def Place.takesDashes (place : Place) : Bool := place == .value || place == .marked

theorem Place.takesDashes_of_sharesColumn {place : Place} {tagged : Bool}
    (h : place.sharesColumn tagged = true) : place.takesDashes = true := by
  cases place <;> simp_all [Place.sharesColumn, Place.takesDashes]

namespace Node

open Reader

/-! ### Steps of a reader -/

theorem run_bind_of_ok {σ ε α β : Type} {x : StateT σ (Except ε) α}
    {f : α → StateT σ (Except ε) β} {a : α} {s s' : σ} (h : x.run s = .ok (a, s')) :
    (x >>= f).run s = (f a).run s' := by
  rw [StateT.run_bind, h]
  rfl

section Steps

variable {t u : Token} {rest : List Token} {handles : List (String × TagBytes)}
  {anchors : List (String × Nat)}

theorem get_run (s : Source) : (get : Reader Source).run s = .ok (s, s) := rfl

theorem modify_run (g : Source → Source) (s : Source) :
    (modify g : Reader Unit).run s = .ok ((), g s) := rfl

theorem peek?_run (s : Source) : peek?.run s = .ok (s.tokens.head?, s) := rfl

theorem skip_run (s : Source) : skip.run s = .ok ((), { s with tokens := s.tokens.tail }) := rfl

theorem isAtAny_run (ts : List Token) (s : Source) :
    (isAtAny ts).run s = .ok (s.tokens.head?.any (ts.contains ·), s) := rfl

theorem accept_run (t : Token) (rest : List Token) :
    (accept t).run ⟨t :: rest, handles, anchors⟩ = .ok (true, ⟨rest, handles, anchors⟩) := by
  have hAt : (isAt t).run ⟨t :: rest, handles, anchors⟩ =
      .ok (true, ⟨t :: rest, handles, anchors⟩) := by
    change Except.ok (some t == some t, _) = _
    simp
  rw [accept, run_bind_of_ok hAt]
  rfl

theorem accept_run_of_ne (h : rest.head? ≠ some t) :
    (accept t).run ⟨rest, handles, anchors⟩ = .ok (false, ⟨rest, handles, anchors⟩) := by
  have hAt : (isAt t).run ⟨rest, handles, anchors⟩ = .ok (false, ⟨rest, handles, anchors⟩) := by
    change Except.ok (rest.head? == some t, _) = _
    simp [h]
  rw [accept, run_bind_of_ok hAt]
  rfl

end Steps

/-- A token with which the content of a node begins. -/
def startsContent : Token → Bool
  | .alias _ | .anchor _ | .tag .. => false
  | _ => true

theorem rawProperties_run_none {t : Token} (h : startsContent t = true) (rest : List Token)
    (handles : List (String × TagBytes)) (anchors : List (String × Nat)) :
    rawProperties.run ⟨t :: rest, handles, anchors⟩ =
      .ok ((none, none), ⟨t :: rest, handles, anchors⟩) := by
  rw [rawProperties, run_bind_of_ok (peek?_run _)]
  cases t <;> first | rfl | exact absurd h Bool.false_ne_true

theorem rawProperties_run_some {handle : String} {suffix : TagBytes} {t : Token}
    (h : startsContent t = true) (rest : List Token) (handles : List (String × TagBytes))
    (anchors : List (String × Nat)) :
    rawProperties.run ⟨.tag handle suffix :: t :: rest, handles, anchors⟩ =
      .ok ((none, some (handle, suffix)), ⟨t :: rest, handles, anchors⟩) := by
  rw [rawProperties, run_bind_of_ok (peek?_run _)]
  dsimp only [List.head?_cons]
  rw [run_bind_of_ok (skip_run _), run_bind_of_ok (peek?_run _)]
  cases t <;> first | rfl | exact absurd h Bool.false_ne_true

theorem resolveTag_run (tag : String) (rest : List Token) (anchors : List (String × Nat)) :
    ∃ handle suffix, tagToken tag = .tag handle suffix ∧
      (resolveTag handle suffix).run ⟨rest, standardHandles, anchors⟩ =
        .ok (tagBytes tag, ⟨rest, standardHandles, anchors⟩) := by
  unfold tagToken tagBytes
  split
  · exact ⟨_, _, rfl, rfl⟩
  · exact ⟨_, _, rfl, rfl⟩

/-- The tag of a node is read in its full form. -/
theorem properties_run {tag : Option String} {t : Token} (h : startsContent t = true)
    (rest : List Token) (anchors : List (String × Nat)) :
    properties.run ⟨tagTokens tag ++ t :: rest, standardHandles, anchors⟩ =
      .ok (⟨none, tag.map tagBytes⟩, ⟨t :: rest, standardHandles, anchors⟩) := by
  cases tag with
  | none =>
    rw [properties, tagTokens, List.nil_append, run_bind_of_ok (rawProperties_run_none h ..)]
    rfl
  | some tag =>
    obtain ⟨handle, suffix, hToken, hTag⟩ := resolveTag_run tag (t :: rest) anchors
    rw [properties, tagTokens, hToken, List.singleton_append,
      run_bind_of_ok (rawProperties_run_some h ..)]
    dsimp only [Option.mapM_some]
    have hSome : (some <$> resolveTag handle suffix).run ⟨t :: rest, standardHandles, anchors⟩ =
        .ok (some (tagBytes tag), ⟨t :: rest, standardHandles, anchors⟩) := by
      rw [StateT.run_map, hTag]
      rfl
    rw [run_bind_of_ok hSome]
    rfl

/-! ### Nodes -/

section Content

variable {dashes : Bool} {tag : Option String} {fuel : Nat} {rest : List Token}
  {anchors : List (String × Nat)}

/-- A node is read behind its tag. -/
theorem read_run {t : Token} (h : startsContent t = true) :
    (read true dashes (fuel + 1)).run ⟨tagTokens tag ++ t :: rest, standardHandles, anchors⟩ =
      (do
        let props : Properties := ⟨none, tag.map tagBytes⟩
        match t with
        | .item =>
          if dashes then return .seq props (← readDashes fuel)
          else readAbsent props
        | .scalar text plain =>
          skip
          return .scalar props text plain
        | .flowSeqStart =>
          skip
          return .seq props (← readFlowSeq true fuel)
        | .flowMapStart =>
          skip
          return .map props (← readFlowMap true fuel)
        | .blockSeqStart =>
          skip
          return .seq props (← readBlockSeq fuel)
        | .blockMapStart =>
          skip
          return .map props (← readBlockMap fuel)
        | _ => readAbsent props : Reader Node).run ⟨t :: rest, standardHandles, anchors⟩ := by
  rw [read, run_bind_of_ok (peek?_run _)]
  have hAlias : ∀ name, (tagTokens tag ++ t :: rest).head? ≠ some (.alias name) := by
    intro name hHead
    cases tag with
    | none =>
      obtain rfl := Option.some.inj hHead
      exact absurd h Bool.false_ne_true
    | some tag =>
      have := Option.some.inj hHead
      unfold tagToken at this
      split at this <;> cases this
  dsimp only
  split
  · rename_i name hHead
    exact absurd hHead (hAlias name)
  · rw [run_bind_of_ok (properties_run h ..), run_bind_of_ok (peek?_run _)]
    cases t <;> rfl

end Content

/-- A token with which a node begins that is no sequence in the column of the mapping around it. -/
def startsNode : Token → Bool
  | .tag .. | .scalar .. | .flowSeqStart | .flowMapStart | .blockSeqStart | .blockMapStart => true
  | _ => false

/-- What stands behind a tag, or the tag itself, begins a node. -/
theorem exists_tagTokens_append {p : Token → Prop} (tag : Option String) {ts : List Token}
    (h : ∃ t r, ts = t :: r ∧ (startsNode t = true ∨ p t)) :
    ∃ t r, tagTokens tag ++ ts = t :: r ∧ (startsNode t = true ∨ p t) := by
  cases tag with
  | none => exact h
  | some tag =>
    refine ⟨_, _, rfl, .inl ?_⟩
    unfold tagToken
    split <;> rfl

theorem exists_nodeTokens (place : Place) :
    (tag : Option String) → (v : Yaml) → ∃ t r, nodeTokens place tag v = t :: r ∧
      (startsNode t = true ∨ (t = .item ∧ place.takesDashes = true))
  | _, .tagged t v => by
    rw [nodeTokens]
    exact exists_nodeTokens place (some t) v
  | tag, .seq (x :: xs) => by
    rw [nodeTokens]
    refine exists_tagTokens_append tag ?_
    split
    · rename_i hShares
      exact ⟨.item, _, rfl, .inr ⟨rfl, Place.takesDashes_of_sharesColumn hShares⟩⟩
    · exact ⟨_, _, rfl, .inl rfl⟩
  | tag, .map (e :: es) => by
    rw [nodeTokens]
    exact exists_tagTokens_append tag ⟨_, _, rfl, .inl rfl⟩
  | tag, .null | tag, .bool _ | tag, .int _ | tag, .float _ | tag, .str _ | tag, .seq []
  | tag, .map [] =>
    exists_tagTokens_append tag ⟨_, _, rfl, .inl rfl⟩

/-- A node that is read from its tokens, whatever follows them, but for another item where the node
may end with one. -/
def TakesNode (place : Place) (tag : Option String) (v : Yaml) : Prop :=
  ∀ (fuel : Nat) (rest : List Token) (anchors : List (String × Nat)),
    2 * (nodeTokens place tag v).length ≤ fuel →
    (place.takesDashes = true → rest.head? ≠ some .item) →
    (read true place.takesDashes fuel).run
        ⟨nodeTokens place tag v ++ rest, standardHandles, anchors⟩ =
      .ok (nodeOf tag v, ⟨rest, standardHandles, anchors⟩)

section Collections

variable {rest : List Token} {anchors : List (String × Nat)}

/-- A node that is there is no absent one. -/
theorem isAtAny_nodeTokens {ts : List Token} {place : Place} {v : Yaml}
    (hEnds : ∀ t ∈ ts, startsNode t = false)
    (hItem : place.takesDashes = true → .item ∉ ts) (rest : List Token) :
    (isAtAny ts).run ⟨nodeTokens place none v ++ rest, standardHandles, anchors⟩ =
      .ok (false, ⟨nodeTokens place none v ++ rest, standardHandles, anchors⟩) := by
  obtain ⟨t, r, hText, hStart⟩ := exists_nodeTokens place none v
  have hNot : t ∉ ts := by
    rcases hStart with hStart | ⟨rfl, hDashes⟩
    · intro hMem
      rw [hEnds t hMem] at hStart
      exact Bool.false_ne_true hStart
    · exact hItem hDashes
  rw [isAtAny_run, hText]
  simp [hNot]

/-- The items of an indented sequence are read up to its end. -/
theorem readBlockSeq_run (rest : List Token) (anchors : List (String × Nat)) (fuel : Nat)
    (xs : List Yaml) (h : ∀ x ∈ xs, TakesNode .item none x)
    (hFuel : 2 * (itemTokens xs).length + 1 ≤ fuel) :
    (readBlockSeq fuel).run ⟨itemTokens xs ++ .blockEnd :: rest, standardHandles, anchors⟩ =
      .ok (itemNodes xs, ⟨rest, standardHandles, anchors⟩) := by
  induction xs generalizing fuel with
  | nil =>
    obtain ⟨fuel, rfl⟩ : ∃ n, fuel = n + 1 := ⟨fuel - 1, by omega⟩
    rw [readBlockSeq, itemTokens, List.nil_append, run_bind_of_ok (accept_run_of_ne (by simp))]
    simp only [Bool.false_eq_true, if_false]
    rw [run_bind_of_ok (accept_run ..)]
    rfl
  | cons x xs ih =>
    obtain ⟨hx, hxs⟩ := List.forall_mem_cons.1 h
    simp only [itemTokens, List.length_cons, List.length_append] at hFuel
    obtain ⟨fuel, rfl⟩ : ∃ n, fuel = n + 1 := ⟨fuel - 1, by omega⟩
    have hNode := hx fuel (itemTokens xs ++ .blockEnd :: rest) anchors (by omega)
      (by simp [Place.takesDashes])
    change (read true false fuel).run _ = _ at hNode
    rw [readBlockSeq, itemTokens, List.cons_append, List.append_assoc,
      run_bind_of_ok (accept_run ..)]
    simp only [if_true]
    rw [run_bind_of_ok (isAtAny_nodeTokens (by decide) (by simp [Place.takesDashes]) _)]
    simp only [Bool.false_eq_true, if_false]
    rw [run_bind_of_ok hNode, run_bind_of_ok (ih fuel hxs (by omega))]
    rfl

/-- The items of a sequence in the column of its mapping are read up to what is no item. -/
theorem readDashes_run (anchors : List (String × Nat)) (fuel : Nat) (xs : List Yaml)
    (h : ∀ x ∈ xs, TakesNode .item none x) (hRest : rest.head? ≠ some .item)
    (hFuel : 2 * (itemTokens xs).length ≤ fuel + 1) (hPos : 0 < fuel) :
    (readDashes fuel).run ⟨itemTokens xs ++ rest, standardHandles, anchors⟩ =
      .ok (itemNodes xs, ⟨rest, standardHandles, anchors⟩) := by
  induction xs generalizing fuel with
  | nil =>
    obtain ⟨fuel, rfl⟩ : ∃ n, fuel = n + 1 := ⟨fuel - 1, by omega⟩
    rw [readDashes, itemTokens, List.nil_append, run_bind_of_ok (accept_run_of_ne hRest)]
    rfl
  | cons x xs ih =>
    obtain ⟨hx, hxs⟩ := List.forall_mem_cons.1 h
    have hSome : 0 < (nodeTokens .item none x).length := by
      obtain ⟨t, r, hText, -⟩ := exists_nodeTokens .item none x
      simp [hText]
    simp only [itemTokens, List.length_cons, List.length_append] at hFuel
    obtain ⟨fuel, rfl⟩ : ∃ n, fuel = n + 1 := ⟨fuel - 1, by omega⟩
    have hNode := hx fuel (itemTokens xs ++ rest) anchors (by omega)
      (by simp [Place.takesDashes])
    change (read true false fuel).run _ = _ at hNode
    rw [readDashes, itemTokens, List.cons_append, List.append_assoc,
      run_bind_of_ok (accept_run ..)]
    simp only [if_true]
    rw [run_bind_of_ok (isAtAny_nodeTokens (by decide) (by simp [Place.takesDashes]) _)]
    simp only [Bool.false_eq_true, if_false]
    rw [run_bind_of_ok hNode, run_bind_of_ok (ih fuel hxs (by omega) (by omega))]
    rfl

/-- The entries of a mapping are read up to its end. -/
theorem readBlockMap_run (rest : List Token) (anchors : List (String × Nat)) (fuel : Nat)
    (es : List (Yaml × Yaml))
    (h : ∀ e ∈ es, TakesNode .marked none e.1 ∧ TakesNode (valuePlace e.1) none e.2)
    (hFuel : 2 * (entryTokens es).length + 1 ≤ fuel) :
    (readBlockMap fuel).run ⟨entryTokens es ++ .blockEnd :: rest, standardHandles, anchors⟩ =
      .ok (entryNodes es, ⟨rest, standardHandles, anchors⟩) := by
  induction es generalizing fuel with
  | nil =>
    obtain ⟨fuel, rfl⟩ : ∃ n, fuel = n + 1 := ⟨fuel - 1, by omega⟩
    rw [readBlockMap, entryTokens, List.nil_append, run_bind_of_ok (accept_run_of_ne (by simp))]
    simp only [Bool.false_eq_true, if_false]
    rw [run_bind_of_ok (accept_run ..)]
    rfl
  | cons e es ih =>
    obtain ⟨k, v⟩ := e
    obtain ⟨⟨hKey, hValue⟩, hes⟩ := List.forall_mem_cons.1 h
    simp only [entryTokens, List.length_cons, List.length_append] at hFuel
    obtain ⟨fuel, rfl⟩ : ∃ n, fuel = n + 1 := ⟨fuel - 1, by omega⟩
    have hPlace : (valuePlace k).takesDashes = true := by
      unfold valuePlace
      split <;> rfl
    have hNext : (entryTokens es ++ .blockEnd :: rest).head? ≠ some .item := by
      cases es with
      | nil => simp [entryTokens]
      | cons e es => simp [entryTokens]
    have hKeyRun := hKey fuel
      (.value :: (nodeTokens (valuePlace k) none v ++ (entryTokens es ++ .blockEnd :: rest)))
      anchors (by dsimp only; omega) (by simp)
    change (read true true fuel).run _ = _ at hKeyRun
    have hValueRun := hValue fuel (entryTokens es ++ .blockEnd :: rest) anchors
      (by dsimp only; omega) (fun _ => hNext)
    rw [hPlace] at hValueRun
    simp only [readBlockMap, entryTokens, List.cons_append, List.append_assoc]
    rw [run_bind_of_ok (accept_run ..)]
    simp only [if_true]
    rw [run_bind_of_ok (isAtAny_nodeTokens (by decide) (by decide) _)]
    simp only [Bool.false_eq_true, if_false]
    rw [run_bind_of_ok hKeyRun, run_bind_of_ok (accept_run ..)]
    simp only [if_true]
    rw [run_bind_of_ok (isAtAny_nodeTokens (by decide) (by simp) _)]
    simp only [Bool.false_eq_true, if_false]
    rw [run_bind_of_ok hValueRun, run_bind_of_ok (ih fuel hes (by omega))]
    rfl

end Collections

section Takes

variable {place : Place} {tag : Option String}

theorem takesNode_seq {x : Yaml} {xs : List Yaml}
    (h : ∀ y ∈ x :: xs, TakesNode .item none y) : TakesNode place tag (.seq (x :: xs)) := by
  intro fuel rest anchors hFuel hRest
  simp only [nodeTokens, List.length_append] at hFuel ⊢
  cases hShares : place.sharesColumn tag.isSome with
  | true =>
    have hDashes := Place.takesDashes_of_sharesColumn hShares
    simp only [hShares, if_true] at hFuel ⊢
    have hPos : 0 < (itemTokens (x :: xs)).length := by simp [itemTokens]
    obtain ⟨fuel, rfl⟩ : ∃ n, fuel = n + 1 := ⟨fuel - 1, by omega⟩
    have hItems := readDashes_run anchors fuel (x :: xs) h (hRest hDashes) (by omega) (by omega)
    rw [itemTokens, List.cons_append] at hItems
    rw [itemTokens, List.append_assoc, List.cons_append, read_run rfl]
    simp only [hDashes, if_true]
    rw [run_bind_of_ok hItems]
    rfl
  | false =>
    simp only [hShares, Bool.false_eq_true, if_false, List.length_cons, List.length_append,
      List.length_nil] at hFuel ⊢
    obtain ⟨fuel, rfl⟩ : ∃ n, fuel = n + 1 := ⟨fuel - 1, by omega⟩
    have hItems := readBlockSeq_run rest anchors fuel (x :: xs) h (by omega)
    rw [List.append_assoc, List.cons_append, List.append_assoc, read_run rfl,
      run_bind_of_ok (skip_run _)]
    dsimp only [List.tail_cons]
    rw [List.singleton_append, run_bind_of_ok hItems]
    rfl

theorem takesNode_map {e : Yaml × Yaml} {es : List (Yaml × Yaml)}
    (h : ∀ f ∈ e :: es, TakesNode .marked none f.1 ∧ TakesNode (valuePlace f.1) none f.2) :
    TakesNode place tag (.map (e :: es)) := by
  intro fuel rest anchors hFuel _
  simp only [nodeTokens, List.length_append, List.length_cons, List.length_nil] at hFuel ⊢
  obtain ⟨fuel, rfl⟩ : ∃ n, fuel = n + 1 := ⟨fuel - 1, by omega⟩
  have hEntries := readBlockMap_run rest anchors fuel (e :: es) h (by omega)
  rw [List.append_assoc, List.cons_append, List.append_assoc, read_run rfl,
    run_bind_of_ok (skip_run _)]
  dsimp only [List.tail_cons]
  rw [List.singleton_append, run_bind_of_ok hEntries]
  rfl

/-- An empty sequence is read with both its brackets. -/
theorem takesNode_emptySeq : TakesNode place tag (.seq []) := by
  intro fuel rest anchors hFuel _
  have hTokens : nodeTokens place tag (.seq []) =
      tagTokens tag ++ [.flowSeqStart, .flowSeqEnd] := rfl
  rw [hTokens] at hFuel ⊢
  simp only [List.length_append, List.length_cons] at hFuel
  obtain ⟨fuel, rfl⟩ : ∃ n, fuel = n + 1 + 1 := ⟨fuel - 2, by omega⟩
  have hEnd : (readFlowSeq true (fuel + 1)).run ⟨.flowSeqEnd :: rest, standardHandles, anchors⟩ =
      .ok ([], ⟨rest, standardHandles, anchors⟩) := by
    rw [readFlowSeq, run_bind_of_ok (accept_run ..)]
    rfl
  rw [List.append_assoc, List.cons_append, List.cons_append, List.nil_append, read_run rfl,
    run_bind_of_ok (skip_run _)]
  refine (run_bind_of_ok hEnd).trans ?_
  rfl

/-- An empty mapping is read with both its braces. -/
theorem takesNode_emptyMap : TakesNode place tag (.map []) := by
  intro fuel rest anchors hFuel _
  have hTokens : nodeTokens place tag (.map []) =
      tagTokens tag ++ [.flowMapStart, .flowMapEnd] := rfl
  rw [hTokens] at hFuel ⊢
  simp only [List.length_append, List.length_cons] at hFuel
  obtain ⟨fuel, rfl⟩ : ∃ n, fuel = n + 1 + 1 := ⟨fuel - 2, by omega⟩
  have hEnd : (readFlowMap true (fuel + 1)).run ⟨.flowMapEnd :: rest, standardHandles, anchors⟩ =
      .ok ([], ⟨rest, standardHandles, anchors⟩) := by
    rw [readFlowMap, run_bind_of_ok (accept_run ..)]
    rfl
  rw [List.append_assoc, List.cons_append, List.cons_append, List.nil_append, read_run rfl,
    run_bind_of_ok (skip_run _)]
  refine (run_bind_of_ok hEnd).trans ?_
  rfl

theorem takesNode_scalar {v : Yaml} {text : String} {plain : Bool}
    (hTokens : nodeTokens place tag v = tagTokens tag ++ [.scalar text plain])
    (hNode : nodeOf tag v = .scalar ⟨none, tag.map tagBytes⟩ text plain) :
    TakesNode place tag v := by
  intro fuel rest anchors hFuel _
  rw [hTokens] at hFuel ⊢
  simp only [List.length_append, List.length_cons] at hFuel
  obtain ⟨fuel, rfl⟩ : ∃ n, fuel = n + 1 := ⟨fuel - 1, by omega⟩
  rw [List.append_assoc, List.singleton_append, read_run rfl, run_bind_of_ok (skip_run _), hNode]
  rfl

end Takes

mutual

/-- A node is read from its tokens. -/
theorem takesNode (place : Place) {tag : Option String} : (v : Yaml) → TakesNode place tag v
  | .tagged t v => by
    have hNode : TakesNode place (some t) v := takesNode _ v
    intro fuel rest anchors hFuel hRest
    rw [nodeTokens] at hFuel ⊢
    rw [nodeOf]
    exact hNode fuel rest anchors hFuel hRest
  | .seq (x :: xs) => takesNode_seq (takesNode_items (x :: xs))
  | .map (e :: es) => takesNode_map (takesNode_entries (e :: es))
  | .seq [] => takesNode_emptySeq
  | .map [] => takesNode_emptyMap
  | .null | .bool _ | .int _ | .float _ | .str _ => takesNode_scalar rfl rfl

theorem takesNode_items : (xs : List Yaml) → ∀ x ∈ xs, TakesNode .item none x
  | [] => by simp
  | x :: xs => List.forall_mem_cons.2 ⟨takesNode _ x, takesNode_items xs⟩

theorem takesNode_entries : (es : List (Yaml × Yaml)) →
    ∀ e ∈ es, TakesNode .marked none e.1 ∧ TakesNode (valuePlace e.1) none e.2
  | [] => by simp
  | (k, v) :: es =>
    List.forall_mem_cons.2 ⟨⟨takesNode _ k, takesNode _ v⟩, takesNode_entries es⟩

end

/-! ### Documents -/

/-- The tokens of documents behind others. -/
def furtherTokens (docs : List Yaml) : List Token :=
  docs.flatMap fun v => .documentStart :: nodeTokens .document none v

/-- The tokens of the documents of a text. -/
def streamTokens : List Yaml → List Token
  | [] => []
  | v :: docs => nodeTokens .document none v ++ furtherTokens docs

theorem exists_documentTokens (v : Yaml) :
    ∃ t r, nodeTokens .document none v = t :: r ∧ startsNode t = true := by
  obtain ⟨t, r, hText, hStart | ⟨-, hDashes⟩⟩ := exists_nodeTokens .document none v
  · exact ⟨t, r, hText, hStart⟩
  · exact absurd hDashes Bool.false_ne_true

theorem not_marker_of_startsNode {t : Token} (h : startsNode t = true) :
    t.isDirective = false ∧ t ≠ .documentStart ∧ t ≠ .documentEnd := by
  cases t <;> simp_all [startsNode, Token.isDirective]

theorem readDirectives_run {t : Token} (h : t.isDirective = false) (rest : List Token)
    (s : Source) (fuel : Nat) :
    (readDirectives [] false fuel).run { s with tokens := t :: rest } =
      .ok ([], { s with tokens := t :: rest }) := by
  cases fuel with
  | zero => rfl
  | succ fuel =>
    rw [readDirectives, run_bind_of_ok (peek?_run _)]
    cases t <;> first | rfl | exact absurd h.symm Bool.false_ne_true

section Documents

variable {v : Yaml} {rest : List Token} {handles : List (String × TagBytes)}
  {anchors : List (String × Nat)} {size : Nat}

/-- The first document is read up to the marker of the next one. -/
theorem readDocument?_first (handles : List (String × TagBytes)) (anchors : List (String × Nat))
    (size : Nat) (hRest : rest.head? ≠ some .documentEnd)
    (hSize : 2 * (nodeTokens .document none v).length ≤ size) :
    (readDocument? true size).run ⟨nodeTokens .document none v ++ rest, handles, anchors⟩ =
      .ok (some (nodeOf none v), ⟨rest, standardHandles, []⟩) := by
  have hNode : (read true false size).run
      ⟨nodeTokens .document none v ++ rest, standardHandles, []⟩ =
      .ok (nodeOf none v, ⟨rest, standardHandles, []⟩) :=
    takesNode .document v _ _ _ hSize (by simp [Place.takesDashes])
  obtain ⟨t, r, hText, hStart⟩ := exists_documentTokens v
  obtain ⟨hDirective, hMarker, -⟩ := not_marker_of_startsNode hStart
  rw [hText, List.cons_append] at hNode ⊢
  have hDirectives := readDirectives_run hDirective (r ++ rest)
    ⟨t :: (r ++ rest), handles, []⟩ size
  have hNot : (accept .documentStart).run ⟨t :: (r ++ rest), standardHandles, []⟩ =
      .ok (false, ⟨t :: (r ++ rest), standardHandles, []⟩) :=
    accept_run_of_ne (by simpa using hMarker)
  have hEnd : (accept .documentEnd).run ⟨rest, standardHandles, []⟩ =
      .ok (false, ⟨rest, standardHandles, []⟩) := accept_run_of_ne hRest
  rw [readDocument?]
  simp only [Bool.not_true, Bool.false_eq_true, if_false]
  refine (run_bind_of_ok (get_run _)).trans ?_
  simp only [List.isEmpty_cons, Bool.false_eq_true, if_false]
  refine (run_bind_of_ok (modify_run _ _)).trans ?_
  refine (run_bind_of_ok (peek?_run _)).trans ?_
  refine (run_bind_of_ok hDirectives).trans ?_
  refine (run_bind_of_ok (modify_run _ _)).trans ?_
  refine (run_bind_of_ok hNot).trans ?_
  simp only [List.head?_cons, Option.any_some, hDirective, Bool.not_false, Bool.and_self,
    Bool.not_true, Bool.and_false, Bool.false_eq_true, if_false]
  refine (run_bind_of_ok hNode).trans ?_
  refine (run_bind_of_ok hEnd).trans ?_
  rfl

/-- A further document is read behind its marker. -/
theorem readDocument?_further (handles : List (String × TagBytes)) (anchors : List (String × Nat))
    (hRest : rest.head? ≠ some .documentEnd)
    (hSize : 2 * (nodeTokens .document none v).length ≤ size) :
    (readDocument? false size).run
        ⟨.documentStart :: nodeTokens .document none v ++ rest, handles, anchors⟩ =
      .ok (some (nodeOf none v), ⟨rest, standardHandles, []⟩) := by
  have hNode : (read true false size).run
      ⟨nodeTokens .document none v ++ rest, standardHandles, []⟩ =
      .ok (nodeOf none v, ⟨rest, standardHandles, []⟩) :=
    takesNode .document v _ _ _ hSize (by simp [Place.takesDashes])
  obtain ⟨t, r, hText, hStart⟩ := exists_documentTokens v
  obtain ⟨hDirective, hMarker, hFinal⟩ := not_marker_of_startsNode hStart
  rw [List.cons_append]
  rw [hText, List.cons_append] at hNode ⊢
  have hDirectives := readDirectives_run (t := .documentStart) rfl (t :: (r ++ rest))
    ⟨.documentStart :: t :: (r ++ rest), handles, []⟩ size
  have hEnd : (accept .documentEnd).run ⟨rest, standardHandles, []⟩ =
      .ok (false, ⟨rest, standardHandles, []⟩) := accept_run_of_ne hRest
  rw [readDocument?]
  simp only [Bool.not_false, if_true]
  refine (run_bind_of_ok (modify_run _ _)).trans ?_
  have hKept : (Token.documentStart :: t :: (r ++ rest)).dropWhile (· == .documentEnd) =
      .documentStart :: t :: (r ++ rest) := rfl
  simp only [hKept]
  refine (run_bind_of_ok (get_run _)).trans ?_
  simp only [List.isEmpty_cons, Bool.false_eq_true, if_false]
  refine (run_bind_of_ok (modify_run _ _)).trans ?_
  refine (run_bind_of_ok (peek?_run _)).trans ?_
  refine (run_bind_of_ok hDirectives).trans ?_
  refine (run_bind_of_ok (modify_run _ _)).trans ?_
  refine (run_bind_of_ok (accept_run ..)).trans ?_
  simp only [Bool.not_true, Bool.false_and, Bool.false_eq_true, if_false, if_true]
  refine (run_bind_of_ok (peek?_run _)).trans ?_
  have hContent : (t.isDirective || t == .documentStart || t == .documentEnd) = false := by
    simp [hDirective, hMarker, hFinal]
  simp only [List.head?_cons, Option.all_some, hContent, Bool.false_eq_true, if_false]
  refine (run_bind_of_ok hNode).trans ?_
  refine (run_bind_of_ok hEnd).trans ?_
  rfl

theorem readDocument?_end : (readDocument? false size).run ⟨[], handles, anchors⟩ =
    .ok (none, ⟨[], handles, anchors⟩) := rfl

theorem furtherTokens_head? (docs : List Yaml) :
    (furtherTokens docs).head? ≠ some .documentEnd := by
  cases docs <;> simp [furtherTokens]

/-- The further documents are read one after the other. -/
theorem readDocuments_further (handles : List (String × TagBytes)) (anchors : List (String × Nat))
    (size fuel : Nat) (docs : List Yaml)
    (hSize : ∀ v ∈ docs, 2 * (nodeTokens .document none v).length ≤ size)
    (hFuel : docs.length < fuel) :
    ∃ s, (readDocuments false size fuel).run ⟨furtherTokens docs, handles, anchors⟩ =
      .ok (docs.map (nodeOf none), s) := by
  induction docs generalizing fuel handles anchors with
  | nil =>
    obtain ⟨fuel, rfl⟩ : ∃ n, fuel = n + 1 := ⟨fuel - 1, by omega⟩
    exact ⟨_, (run_bind_of_ok readDocument?_end).trans rfl⟩
  | cons v docs ih =>
    obtain ⟨hv, hDocs⟩ := List.forall_mem_cons.1 hSize
    obtain ⟨fuel, rfl⟩ : ∃ n, fuel = n + 1 := ⟨fuel - 1, by omega⟩
    obtain ⟨s, hRest⟩ := ih standardHandles [] fuel hDocs
      (by simpa using hFuel)
    have hFirst := readDocument?_further handles anchors (furtherTokens_head? docs) hv
    refine ⟨s, ?_⟩
    rw [readDocuments]
    refine (run_bind_of_ok hFirst).trans ?_
    refine (run_bind_of_ok hRest).trans ?_
    rfl

end Documents

theorem length_le_furtherTokens {v : Yaml} {docs : List Yaml} (h : v ∈ docs) :
    (nodeTokens .document none v).length ≤ (furtherTokens docs).length := by
  obtain ⟨before, behind, rfl⟩ := List.append_of_mem h
  simp [furtherTokens]
  omega

theorem length_docs_le_furtherTokens (docs : List Yaml) :
    docs.length ≤ (furtherTokens docs).length := by
  induction docs with
  | nil => exact Nat.le_refl 0
  | cons v docs ih =>
    rw [furtherTokens, List.flatMap_cons, ← furtherTokens]
    simp only [List.length_cons, List.length_append]
    omega

/-- The documents of a text are read from their tokens. -/
theorem ofTokens_streamTokens (docs : List Yaml) :
    ofTokens (streamTokens docs) = .ok (docs.map (nodeOf none)) := by
  cases docs with
  | nil => rfl
  | cons v docs =>
    have hDocs := length_docs_le_furtherTokens docs
    obtain ⟨s, hRest⟩ := readDocuments_further standardHandles []
      (2 * (streamTokens (v :: docs)).length + 2) (2 * (streamTokens (v :: docs)).length + 1) docs
      (fun w hw => by
        have := length_le_furtherTokens hw
        simp only [streamTokens, List.length_append]
        omega) (by
        simp only [streamTokens, List.length_append]
        omega)
    have hFirst := readDocument?_first (v := v) [] [] (2 * (streamTokens (v :: docs)).length + 2)
      (furtherTokens_head? docs) (by
        simp only [streamTokens, List.length_append]
        omega)
    have hRun : (readDocuments true (2 * (streamTokens (v :: docs)).length + 2)
        (2 * (streamTokens (v :: docs)).length + 2)).run ⟨streamTokens (v :: docs), [], []⟩ =
        .ok ((v :: docs).map (nodeOf none), s) := by
      rw [readDocuments]
      refine (run_bind_of_ok hFirst).trans ?_
      refine (run_bind_of_ok hRest).trans ?_
      rfl
    rw [ofTokens, hRun]
    rfl

end Node

end KubeCompose.Yaml
