import KubeCompose.Proofs.RoundTrip.Leaf
import KubeCompose.Yaml.Nesting

/-!
# The tokens of a written document

`nodeTokens` are the tokens of a node as written at a place. A scan that stands at the place reads
them up to the token behind the node. The blocks of a collection stand in a column of their own,
except that a sequence behind a colon may stand in the column of its key: its dashes then open no
block.
-/

namespace KubeCompose.Yaml

open Scan

/-! ### Tags -/

mutual

/-- Whether all tags in a value satisfy `p`. -/
def tagsSatisfy (p : String → Bool) : Yaml → Bool
  | .tagged t v => p t && tagsSatisfy p v
  | .seq items => itemTagsSatisfy p items
  | .map entries => entryTagsSatisfy p entries
  | _ => true

/-- Whether all tags in a list of values satisfy `p`. -/
def itemTagsSatisfy (p : String → Bool) : List Yaml → Bool
  | [] => true
  | v :: r => tagsSatisfy p v && itemTagsSatisfy p r

/-- Whether all tags in the keys and values of a mapping satisfy `p`. -/
def entryTagsSatisfy (p : String → Bool) : List (Yaml × Yaml) → Bool
  | [] => true
  | (k, v) :: r => tagsSatisfy p k && tagsSatisfy p v && entryTagsSatisfy p r

end

/-- Whether a tag is read as it is written. -/
def readsTag (tag : String) : Bool :=
  tag != "" && !tag.toList.contains '\x00' && keepsTag tag

theorem readsTag_iff {tag : String} :
    readsTag tag = true ↔ tag ≠ "" ∧ '\x00' ∉ tag.toList ∧ keepsTag tag = true := by
  simp [readsTag, and_assoc]

/-- The tokens of a tag. -/
def tagTokens : Option String → List Token
  | none => []
  | some t => [tagToken t]

/-! ### Tokens -/

/-- Whether the dashes of a sequence stand in the column of the mapping around it. -/
def Place.sharesColumn (place : Place) (tagged : Bool) : Bool :=
  place == .value || (place == .marked && tagged)

mutual

/-- The tokens of a node at a place. -/
def nodeTokens (place : Place) (tag : Option String) : Yaml → List Token
  | .tagged t v => nodeTokens place (some t) v
  | .seq (x :: xs) =>
    tagTokens tag ++
      if place.sharesColumn tag.isSome then itemTokens (x :: xs)
      else .blockSeqStart :: (itemTokens (x :: xs) ++ [.blockEnd])
  | .map (e :: es) => tagTokens tag ++ .blockMapStart :: (entryTokens (e :: es) ++ [.blockEnd])
  | v => tagTokens tag ++ leafTokens v

/-- The tokens of the items of a sequence. -/
def itemTokens : List Yaml → List Token
  | [] => []
  | x :: xs => .item :: (nodeTokens .item none x ++ itemTokens xs)

/-- The tokens of the entries of a mapping. -/
def entryTokens : List (Yaml × Yaml) → List Token
  | [] => []
  | (k, v) :: es =>
    .key :: (nodeTokens .marked none k ++
      .value :: (nodeTokens (valuePlace k) none v ++ entryTokens es))

end

/-! ### Places -/

/-- What a scan looks like at a place in a block indented by `n`: the indentation of the block, the
column, and whether a key may stand there. -/
inductive Place.At : Place → Nat → Int → Nat → Bool → Prop
  | document : Place.At .document 0 (-1) 0 true
  | item (n : Nat) : Place.At .item n n (n + 1) true
  | marked (n : Nat) : Place.At .marked n n (n + 1) true
  | value {n k : Nat} : n < k → Place.At .value n n k false

namespace Place.At

variable {place : Place} {n k : Nat} {indent : Int} {allowed : Bool}
  (h : place.At n indent k allowed)
include h

theorem scalarIndent : place.scalarIndent n = indent.toNat + 2 := by
  cases h <;> simp [Place.scalarIndent]

theorem column : indent < k ∧ -1 ≤ indent := by
  cases h <;> omega

theorem indent_eq_self {tagged : Bool} (hShares : place.sharesColumn tagged = true) :
    (place.indent tagged true n : Int) = indent := by
  cases h <;> simp_all [Place.sharesColumn, Place.indent]

theorem indent_lt (tagged isSeq : Bool) (hShares : (isSeq && place.sharesColumn tagged) = false) :
    indent < place.indent tagged isSeq n := by
  -- a place takes two more columns, except for a sequence that shares the column of its key
  have hFurther : (n : Int) < (n + 2 : Nat) := by omega
  cases h with
  | document => exact Int.negSucc_lt_zero 0
  | item => exact hFurther
  | marked => rwa [Place.indent, show (isSeq && tagged) = false from hShares]
  | value =>
    obtain rfl : isSeq = false := by simpa [Place.sharesColumn] using hShares
    exact hFurther

/-- On the line of its place, an entry stands at its indentation, and a key may stand there. -/
theorem column_of_isInline (isSeq : Bool) {tagged : Bool} (hInline : place.isInline tagged = true) :
    k + place.gap.length = place.indent tagged isSeq n ∧ allowed = true := by
  cases h <;> cases tagged <;> simp_all [Place.isInline, Place.gap, Place.indent]

end Place.At

namespace Scan

variable {tail next rest lines : List Char} {toks tokens : List Token} {i l k j m n : Nat}
  {indent : Int} {outer : List Int} {key : Option SimpleKey} {allowed : Bool} {place : Place}
  {tag : Option String}

theorem reaches_gap (tokens : List Token) (outer : List Int) (key : Option SimpleKey)
    (hAt : place.At n indent k allowed) (h : ∀ c r, rest = c :: r → startsToken c = true) :
    Reaches (inBlock ⟨place.gap ++ rest, i, l, k⟩ tokens indent outer key allowed)
      (inBlock ⟨rest, i + place.gap.length, l, k + place.gap.length⟩ tokens indent outer key
        allowed) := by
  cases hAt with
  | document => exact .refl _
  | _ => exact reaches_space _ _ _ _ _ h

/-- The tag of a node is read up to the space or line end behind it. -/
theorem reaches_tag_of_place (tail : List Char) (tokens : List Token) (outer : List Int)
    {t : String} (hAt : place.At n indent k allowed) (hTag : readsTag t = true)
    (hTail : endsWord tail = true) :
    ∃ (i' k' : Nat) (key' : Option SimpleKey), Lapses l key' ∧ indent < k' ∧ Reaches
      (inBlock ⟨place.tag (some t) ++ tail, i, l, k⟩ tokens indent outer none allowed)
      (inBlock ⟨tail, i', l, k'⟩ (tokens ++ [tagToken t]) indent outer key' false) := by
  obtain ⟨hNonempty, hNul, hKeeps⟩ := readsTag_iff.1 hTag
  obtain ⟨hColumn, -⟩ := hAt.column
  have hStart : ∀ c r, tagText t ++ tail = c :: r → startsToken c = true := by
    obtain ⟨text, hText, -⟩ := scanTag_tagText _ hNonempty hNul hKeeps hTail
    rintro c r hEq
    rw [hText] at hEq
    rw [← (List.cons.inj hEq).1]
    decide
  have hGap := reaches_gap (i := i) (l := l) tokens outer none hAt hStart
  have hRead := reaches_tag (i := i + place.gap.length) (l := l) (k := k + place.gap.length) _
    tokens indent outer allowed hNonempty hNul hKeeps hTail (fresh_none _) (fun _ => idle_none)
    (by omega)
  rw [Place.tag, List.append_assoc]
  refine ⟨_, _, _, ?_, ?_, hGap.trans hRead⟩
  · exact lapses_none.savedKey (c := ⟨_, i + place.gap.length, l, k + place.gap.length⟩)
      _ (by simp; omega)
  · omega

/-- A scalar or an empty collection is read at its place. -/
theorem reaches_leaf_of_place (hAt : place.At n indent k allowed)
    (hTag : ∀ t, tag = some t → readsTag t = true)
    (h : LeafText (place.scalarIndent n) lines toks) (hEnds : EndsBlock indent j next) :
    ∃ i' l', Reaches
      (inBlock ⟨place.leaf tag lines ++ (spaces j ++ next), i, l, k⟩ tokens indent outer none
        allowed)
      (inBlock ⟨next, i', l', j⟩ (tokens ++ (tagTokens tag ++ toks)) indent outer none true) := by
  obtain ⟨hColumn, hLeast⟩ := hAt.column
  obtain ⟨c, r, hText, hStart⟩ := h.exists_cons
  have hNonempty : lines ≠ [] := by simp [hText]
  have hStarts : ∀ d q, lines ++ (closing lines ++ (spaces j ++ next)) = d :: q →
      startsToken d = true := by
    intro d q hEq
    rw [hText] at hEq
    rw [← (List.cons.inj hEq).1]
    exact hStart
  rw [Place.leaf, endLine_eq, closing_append _ hNonempty]
  cases tag with
  | none =>
    have hGap := reaches_gap (i := i) (l := l) tokens outer none hAt hStarts
    obtain ⟨i', l', hRead⟩ := reaches_leaf (i := i + place.gap.length) (l := l)
      (k := k + place.gap.length) tokens outer allowed h hAt.scalarIndent hEnds hLeast lapses_none
      (by omega)
    refine ⟨i', l', ?_⟩
    simpa [Place.tag, tagTokens] using hGap.trans hRead
  | some t =>
    obtain ⟨i₁, k₁, key', hLapses, hColumn', hTagged⟩ := reaches_tag_of_place (i := i) (l := l)
      (' ' :: (lines ++ (closing lines ++ (spaces j ++ next)))) tokens outer hAt (hTag t rfl) rfl
    have hSpace := reaches_space (i := i₁) (l := l) (k := k₁) (tokens ++ [tagToken t]) indent outer
      key' false hStarts
    obtain ⟨i', l', hRead⟩ := reaches_leaf (i := i₁ + 1) (l := l) (k := k₁ + 1)
      (tokens ++ [tagToken t]) outer false h hAt.scalarIndent hEnds hLeast hLapses (by omega)
    refine ⟨i', l', ?_⟩
    simpa [tagTokens] using (hTagged.trans hSpace).trans hRead

/-- What stands before the first entry of a collection is passed. -/
theorem reaches_opening (rest : List Char) (tokens : List Token) (outer : List Int) (isSeq : Bool)
    (hAt : place.At n indent k allowed) (hTag : ∀ t, tag = some t → readsTag t = true)
    (h : ∀ c r, rest = c :: r → startsToken c = true) :
    ∃ i' l', Reaches
      (inBlock ⟨place.opening tag (place.indent tag.isSome isSeq n) ++ rest, i, l, k⟩ tokens indent
        outer none allowed)
      (inBlock ⟨rest, i', l', place.indent tag.isSome isSeq n⟩ (tokens ++ tagTokens tag) indent
        outer none true) := by
  have hNewline : ∀ {i l k : Nat} {toks : List Token} {key : Option SimpleKey} {allowed : Bool},
      Lapses l key → Reaches
        (inBlock ⟨'\n' :: (spaces (place.indent tag.isSome isSeq n) ++ rest), i, l, k⟩ toks indent
          outer key allowed)
        (inBlock ⟨rest, i + 1 + place.indent tag.isSome isSeq n, l + 1,
          place.indent tag.isSome isSeq n⟩ toks indent outer none true) :=
    fun hLapses => reaches_newline _ _ _ _ _ _ h hLapses.idle hLapses.line
  rw [Place.opening]
  cases tag with
  | none =>
    rw [Place.tag, tagTokens, List.nil_append, List.append_nil]
    split
    · rename_i hInline
      obtain ⟨hColumn, rfl⟩ := hAt.column_of_isInline isSeq hInline
      have hGap := reaches_gap (i := i) (l := l) tokens outer none hAt h
      rw [hColumn] at hGap
      exact ⟨_, _, hGap⟩
    · exact ⟨_, _, hNewline lapses_none⟩
  | some t =>
    have hInline : place.isInline (some t).isSome = false := by simp [Place.isInline]
    rw [hInline, if_neg Bool.false_ne_true, List.append_assoc]
    obtain ⟨i₁, k₁, key', hLapses, -, hTagged⟩ := reaches_tag_of_place (i := i) (l := l)
      ('\n' :: (spaces (place.indent (some t).isSome isSeq n) ++ rest)) tokens outer hAt
      (hTag t rfl) rfl
    exact ⟨_, _, hTagged.trans (hNewline hLapses)⟩

/-! ### Blocks -/

/-- A block that opens at column `m` in one indented by `p`, with its token, or one that is open
there. -/
inductive Opens (start : Token) (m : Nat) (outer : List Int) :
    Int → List Token → List Int → Prop
  | first {p : Int} : p < m → Opens start m outer p [start] (p :: outer)
  | next : Opens start m outer m [] outer

theorem reaches_mark (tokens : List Token) {mark : Char} {start t : Token} {p : Int}
    {pre : List Token} {outer' : List Int} (h : BlockMark mark start t)
    (hOpens : Opens start m outer p pre outer') (hRest : endsWord rest = true) :
    Reaches (inBlock ⟨mark :: rest, i, l, m⟩ tokens p outer none true)
      (inBlock ⟨rest, i + 1, l, m + 1⟩ (tokens ++ pre ++ [t]) m outer' none true) := by
  cases hOpens with
  | first hLess =>
    have hRead := h.reaches_first (i := i) (l := l) tokens outer hRest hLess
    rwa [List.append_assoc]
  | next =>
    rw [List.append_nil]
    exact h.reaches_next hRest

/-- The colon behind a key on its line. -/
theorem reaches_colon_of_opens (tokens behind : List Token) {p : Int} {pre : List Token}
    {outer' : List Int} (hOpens : Opens .blockMapStart m outer p pre outer')
    (hRest : endsWord rest = true) (hColumn : m ≤ k) {i₀ : Nat} (hIndex : i ≤ i₀ + 1024) :
    Reaches
      (inBlock ⟨':' :: rest, i, l, k⟩ (tokens ++ behind) p outer
        (some ⟨tokens.length, decide (p = (m : Int)), i₀, l, m⟩) false)
      (inBlock ⟨rest, i + 1, l, k + 1⟩ (tokens ++ pre ++ .key :: behind ++ [.value]) m outer' none
        false) := by
  have hFresh : Fresh ⟨':' :: rest, i, l, k⟩
      (some ⟨tokens.length, decide (p = (m : Int)), i₀, l, m⟩) := by
    rintro q hq
    obtain rfl := Option.some.inj hq
    exact ⟨Nat.le_refl l, hIndex⟩
  cases hOpens with
  | first hLess =>
    have hOpen := openBlock_inBlock (c := ⟨':' :: rest, i, l, k⟩) outer
      (some ⟨tokens.length, decide (p = (m : Int)), i₀, l, m⟩) false hLess tokens (.key :: behind)
      .blockMapStart
    have hRead := reaches_colon_of_key hRest (by omega) hFresh rfl hOpen
    simpa using hRead
  | next =>
    have hOpen := openBlock_eq_self (c := ⟨':' :: rest, i, l, k⟩) (tokens ++ .key :: behind)
      (m : Int) outer (some ⟨tokens.length, decide ((m : Int) = (m : Int)), i₀, l, m⟩) false rfl
      tokens.length .blockMapStart
    have hRead := reaches_colon_of_key hRest (by omega) hFresh rfl hOpen
    simpa using hRead

end Scan

/-! ### Keys on one line -/

theorem nodeTokens_of_keyLength? {v : Yaml} {n : Nat} (h : keyLength? v = some n)
    (hTag : ∀ t u, v ≠ .tagged t u) (place : Place) (tag : Option String) :
    nodeTokens place tag v = tagTokens tag ++ leafTokens v := by
  cases v with
  | seq items =>
    cases items with
    | nil => rfl
    | cons x xs => cases h
  | map entries =>
    cases entries with
    | nil => rfl
    | cons e es => cases h
  | tagged t u => exact absurd rfl (hTag t u)
  | _ => rfl

theorem not_tagged_of_isWritable {v : Yaml} (h : isWritable true v = true) :
    ∀ t u, v ≠ .tagged t u := by
  rintro t u rfl
  simp [isWritable] at h

theorem exists_simpleKeyText {k : Yaml} (hSimple : isSimpleKey k = true)
    (hWritable : isWritable false k = true) (hTags : tagsSatisfy readsTag k = true) :
    ∃ c r, simpleKeyText k = c :: r ∧ startsToken c = true := by
  rw [isSimpleKey] at hSimple
  cases hLength : keyLength? k with
  | none => simp [hLength] at hSimple
  | some len =>
    by_cases hTag : ∃ t v, k = .tagged t v
    · obtain ⟨t, v, rfl⟩ := hTag
      simp only [tagsSatisfy, Bool.and_eq_true] at hTags
      obtain ⟨hNonempty, hNul, hKeeps⟩ := readsTag_iff.1 hTags.1
      obtain ⟨text, hText, -⟩ := scanTag_tagText [] hNonempty hNul hKeeps rfl
      exact ⟨'!', _, by rw [simpleKeyText, hText]; rfl, by decide⟩
    · have hNot : ∀ t v, k ≠ .tagged t v := fun t v hEq => hTag ⟨t, v, hEq⟩
      exact (exists_keyText hLength hNot).1.exists_cons

namespace Scan

variable {tail next rest lines : List Char} {toks tokens : List Token} {i l k j m n : Nat}
  {indent : Int} {outer : List Int} {key : Option SimpleKey} {allowed : Bool} {place : Place}
  {tag : Option String}

/-- A key is read up to the colon behind it, and its place is kept. -/
theorem reaches_simpleKey (tokens : List Token) (outer : List Int) {k : Yaml} {p : Int}
    (hSimple : isSimpleKey k = true) (hWritable : isWritable false k = true)
    (hTags : tagsSatisfy readsTag k = true) (hColumn : p ≤ m) (hTail : endsWord tail = true) :
    ∃ i' k', m ≤ k' ∧ i' ≤ i + 1024 ∧ Reaches
      (inBlock ⟨simpleKeyText k ++ ':' :: tail, i, l, m⟩ tokens p outer none true)
      (inBlock ⟨':' :: tail, i', l, k'⟩ (tokens ++ nodeTokens .marked none k) p outer
        (some ⟨tokens.length, decide (p = (m : Int)), i, l, m⟩) false) := by
  rw [isSimpleKey] at hSimple
  cases hLength : keyLength? k with
  | none => simp [hLength] at hSimple
  | some len =>
    have hBound : len ≤ 128 := by simpa [hLength] using hSimple
    by_cases hTag : ∃ t v, k = .tagged t v
    · obtain ⟨t, v, rfl⟩ := hTag
      simp only [isWritable, tagsSatisfy, Bool.and_eq_true] at hWritable hTags
      have hNot := not_tagged_of_isWritable hWritable.2
      obtain ⟨len', hLength', rfl⟩ :
          ∃ len', keyLength? v = some len' ∧ tagLength t + len' = len := by
        simpa [keyLength?] using hLength
      obtain ⟨hText, hSize⟩ := exists_keyText hLength' hNot
      obtain ⟨hNonempty, hNul, hKeeps⟩ := readsTag_iff.1 hTags.1
      obtain ⟨c, r, hCons, hStart⟩ := hText.exists_cons
      have hStarts : ∀ d q, simpleKeyText v ++ ':' :: tail = d :: q → startsToken d = true := by
        intro d q hEq
        rw [hCons] at hEq
        rw [← (List.cons.inj hEq).1]
        exact hStart
      have hTagSize := byteLength_tagText t
      have hRead := reaches_tag (i := i) (l := l) (k := m) (' ' :: (simpleKeyText v ++ ':' :: tail))
        tokens _ outer true hNonempty hNul hKeeps rfl (fresh_none _) (fun _ => idle_none) hColumn
      have hSpace := reaches_space (i := i + byteLength (tagText t)) (l := l)
        (k := m + (tagText t).length) (tokens ++ [tagToken t]) p outer
        (some ⟨tokens.length, decide (p = (m : Int)), i, l, m⟩) false hStarts
      obtain ⟨k', hLess, hKey⟩ := reaches_key (i := i + byteLength (tagText t) + 1) (l := l)
        (k := m + (tagText t).length + 1) (tokens ++ [tagToken t]) p outer
        (some ⟨tokens.length, decide (p = (m : Int)), i, l, m⟩) false hText hTail (by
          rintro q hq
          obtain rfl := Option.some.inj hq
          exact ⟨Nat.le_refl l, by dsimp only; omega⟩) (by simp) (by omega)
      refine ⟨i + byteLength (tagText t) + 1 + byteLength (simpleKeyText v), k', by omega,
        by omega, ?_⟩
      rw [simpleKeyText, nodeTokens, nodeTokens_of_keyLength? hLength' hNot]
      simpa [tagTokens, savedKey] using (hRead.trans hSpace).trans hKey
    · have hNot : ∀ t v, k ≠ .tagged t v := fun t v hEq => hTag ⟨t, v, hEq⟩
      obtain ⟨hText, hSize⟩ := exists_keyText hLength hNot
      obtain ⟨k', hLess, hKey⟩ := reaches_key (i := i) (l := l) (k := m) tokens p outer none true
        hText hTail (fresh_none _) (fun _ => idle_none) hColumn
      refine ⟨i + byteLength (simpleKeyText k), k', hLess, by omega, ?_⟩
      rw [nodeTokens_of_keyLength? hLength hNot, tagTokens, List.nil_append]
      exact hKey

end Scan

/-! ### Nodes -/

section Gap

variable {place : Place} (h : place ≠ .document) (rest : List Char)
include h

theorem endsWord_tag (t : String) (cs : List Char) :
    endsWord (place.tag (some t) ++ cs) = true := by
  rw [Place.tag, Place.gap, if_neg h]
  rfl

theorem endsWord_opening (tag : Option String) (m : Nat) :
    endsWord (place.opening tag m ++ rest) = true := by
  cases tag with
  | none =>
    rw [Place.opening, Place.tag, List.nil_append, Place.gap, if_neg h]
    split <;> rfl
  | some t =>
    rw [Place.opening, List.append_assoc]
    exact endsWord_tag h t _

theorem endsWord_leaf (tag : Option String) (lines : List Char) :
    endsWord (place.leaf tag lines ++ rest) = true := by
  rw [Place.leaf, endLine_eq]
  cases tag with
  | none =>
    rw [Place.tag, Place.gap, if_neg h]
    rfl
  | some t =>
    rw [List.append_assoc, List.append_assoc, List.append_assoc]
    exact endsWord_tag h t _

/-- White space stands in front of a node, but for that of a document. -/
theorem endsWord_nodeLines (n : Nat) (tag : Option String) :
    (v : Yaml) → endsWord (nodeLines place tag n v ++ rest) = true
  | .tagged t v => by
    rw [nodeLines]
    exact endsWord_nodeLines n (some t) v
  | .seq (x :: xs) | .map (e :: es) => by
    rw [nodeLines, List.append_assoc]
    exact endsWord_opening h _ tag _
  | .null | .bool _ | .int _ | .float _ | .str _ | .seq [] | .map [] =>
    endsWord_leaf h rest tag _

end Gap

/-- A node that a scan reads at every place where it can stand. -/
def ReadsNode (place : Place) (tag : Option String) (v : Yaml) : Prop :=
  ∀ {n k j i l : Nat} {indent : Int} {allowed : Bool} {next : List Char} (tokens : List Token)
    (outer : List Int), place.At n indent k allowed → EndsBlock indent j next →
    ∃ i' l', Reaches
      (inBlock ⟨nodeLines place tag n v ++ (spaces j ++ next), i, l, k⟩ tokens indent outer none
        allowed)
      (inBlock ⟨next, i', l', j⟩ (tokens ++ nodeTokens place tag v) indent outer none true)

/-- An entry whose key and value are read. -/
structure ReadsEntry (e : Yaml × Yaml) : Prop where
  key : ReadsNode .marked none e.1
  value : ReadsNode (valuePlace e.1) none e.2
  writable : isWritable false e.1 = true
  tags : tagsSatisfy readsTag e.1 = true

section Blocks

variable {next : List Char} {tokens pre : List Token} {i l j m : Nat} {p : Int}
  {outer outer' : List Int}

theorem indented_cons_cons (m : Nat) (b c : List Char) (bs : List (List Char)) :
    indented m (b :: c :: bs) = b ++ (spaces m ++ indented m (c :: bs)) := by
  simp [indented]

theorem indented_singleton (m : Nat) (b : List Char) : indented m [b] = b := by
  simp [indented]

theorem exists_indented_cons (m : Nat) (c : Char) (b : List Char) (bs : List (List Char)) :
    ∃ r, indented m ((c :: b) :: bs) = c :: r := by
  cases bs with
  | nil => exact ⟨b, indented_singleton ..⟩
  | cons d ds => exact ⟨_, indented_cons_cons ..⟩

/-- An item is read behind its dash. -/
theorem reaches_item (tokens : List Token) {x : Yaml} (h : ReadsNode .item none x)
    (hOpens : Opens .blockSeqStart m outer p pre outer') (hEnds : EndsBlock m j next) :
    ∃ i' l', Reaches
      (inBlock ⟨'-' :: nodeLines .item none m x ++ (spaces j ++ next), i, l, m⟩ tokens p outer
        none true)
      (inBlock ⟨next, i', l', j⟩ (tokens ++ pre ++ .item :: nodeTokens .item none x) m outer' none
        true) := by
  have hMark := reaches_mark (i := i) (l := l) tokens .item hOpens
    (endsWord_nodeLines (show Place.item ≠ .document by decide) (spaces j ++ next) m none x)
  obtain ⟨i', l', hNode⟩ := h (i := i + 1) (l := l) (tokens ++ pre ++ [.item]) outer' (.item m)
    hEnds
  refine ⟨i', l', ?_⟩
  simpa using hMark.trans hNode

/-- The items of a sequence are read one after the other. -/
theorem reaches_items (xs : List Yaml) : ∀ (x : Yaml), (∀ y ∈ x :: xs, ReadsNode .item none y) →
    ∀ {i l : Nat} (tokens : List Token) {p : Int} {pre : List Token} (outer : List Int),
    Opens .blockSeqStart m outer p pre outer' → EndsBlock m j next →
    ∃ i' l', Reaches
      (inBlock ⟨indented m (itemBlocks m (x :: xs)) ++ (spaces j ++ next), i, l, m⟩ tokens p outer
        none true)
      (inBlock ⟨next, i', l', j⟩ (tokens ++ pre ++ itemTokens (x :: xs)) m outer' none true) := by
  induction xs with
  | nil =>
    intro x h i l tokens p pre outer hOpens hEnds
    obtain ⟨i', l', hItem⟩ := reaches_item (i := i) (l := l) tokens (h x (List.mem_cons_self ..))
      hOpens hEnds
    refine ⟨i', l', ?_⟩
    simpa [itemBlocks, indented_singleton, itemTokens] using hItem
  | cons y ys ih =>
    intro x h i l tokens p pre outer hOpens hEnds
    obtain ⟨hx, hRest⟩ := List.forall_mem_cons.1 h
    obtain ⟨q, hNext⟩ := exists_indented_cons m '-' (nodeLines .item none m y) (itemBlocks m ys)
    rw [← itemBlocks] at hNext
    have hDash : EndsBlock m m (indented m (itemBlocks m (y :: ys)) ++ (spaces j ++ next)) := by
      rw [hNext]
      exact .atToken _ (by decide) (Int.le_refl _)
    obtain ⟨i₁, l₁, hItem⟩ := reaches_item (i := i) (l := l) tokens hx hOpens hDash
    obtain ⟨i', l', hItems⟩ := ih y hRest (i := i₁) (l := l₁)
      (tokens ++ pre ++ .item :: nodeTokens .item none x) outer' .next hEnds
    refine ⟨i', l', ?_⟩
    rw [itemBlocks, itemBlocks, indented_cons_cons, ← itemBlocks, itemTokens]
    simpa using hItem.trans hItems

/-- An entry is read with its key and its value. -/
theorem reaches_entry (tokens : List Token) {k v : Yaml} (h : ReadsEntry (k, v))
    (hOpens : Opens .blockMapStart m outer p pre outer') (hEnds : EndsBlock m j next) :
    ∃ i' l', Reaches
      (inBlock ⟨keyLines m k (nodeLines .marked none m k) ++ nodeLines (valuePlace k) none m v ++
        (spaces j ++ next), i, l, m⟩ tokens p outer none true)
      (inBlock ⟨next, i', l', j⟩ (tokens ++ pre ++ .key :: (nodeTokens .marked none k ++
        .value :: nodeTokens (valuePlace k) none v)) m outer' none true) := by
  have hColumn : p ≤ m := by
    cases hOpens with
    | first hLess => omega
    | next => exact Int.le_refl _
  have hPlace : valuePlace k ≠ .document := by
    unfold valuePlace
    split <;> decide
  have hTail := endsWord_nodeLines hPlace (spaces j ++ next) m none v
  cases hSimple : isSimpleKey k with
  | true =>
    obtain ⟨i₁, k₁, hLess, hIndex, hKey⟩ := reaches_simpleKey (i := i) (l := l) (m := m) tokens
      outer hSimple h.writable h.tags hColumn hTail
    have hColon := reaches_colon_of_opens (i := i₁) (l := l) (k := k₁) tokens
      (nodeTokens .marked none k) hOpens hTail hLess hIndex
    have hAt : (valuePlace k).At m m (k₁ + 1) false := by
      rw [valuePlace, hSimple]
      exact .value (by omega)
    obtain ⟨i', l', hValue⟩ := h.value (i := i₁ + 1) (l := l)
      (tokens ++ pre ++ .key :: nodeTokens .marked none k ++ [.value]) outer' hAt hEnds
    refine ⟨i', l', ?_⟩
    rw [keyLines, hSimple, if_pos rfl]
    simpa using (hKey.trans hColon).trans hValue
  | false =>
    have hAt : (valuePlace k).At m m (m + 1) true := by
      rw [valuePlace, hSimple]
      exact .marked m
    have hMark := reaches_mark (i := i) (l := l) tokens .key hOpens
      (endsWord_nodeLines (show Place.marked ≠ .document by decide)
        (spaces m ++ ':' :: (nodeLines (valuePlace k) none m v ++ (spaces j ++ next))) m none k)
    obtain ⟨i₁, l₁, hKey⟩ := h.key (i := i + 1) (l := l) (j := m) (tokens ++ pre ++ [.key]) outer'
      (.marked m) (.atToken (nodeLines (valuePlace k) none m v ++ (spaces j ++ next))
        (show startsToken ':' = true by decide) (Int.le_refl _))
    have hColon := reaches_colon (i := i₁) (l := l₁) (m := m)
      (tokens ++ pre ++ [.key] ++ nodeTokens .marked none k) outer' hTail
    obtain ⟨i', l', hValue⟩ := h.value (i := i₁ + 1) (l := l₁)
      (tokens ++ pre ++ [.key] ++ nodeTokens .marked none k ++ [.value]) outer' hAt hEnds
    refine ⟨i', l', ?_⟩
    rw [keyLines, hSimple, if_neg Bool.false_ne_true]
    simpa using ((hMark.trans hKey).trans hColon).trans hValue

/-- An entry starts where its key or its mark stands. -/
theorem exists_indented_entries {e : Yaml × Yaml} (h : ReadsEntry e) (m : Nat)
    (es : List (Yaml × Yaml)) :
    ∃ c r, indented m (entryBlocks m (e :: es)) = c :: r ∧ startsToken c = true := by
  obtain ⟨k, v⟩ := e
  obtain ⟨c, r, hKey, hStart⟩ : ∃ c r, keyLines m k (nodeLines .marked none m k) = c :: r ∧
      startsToken c = true := by
    rw [keyLines]
    split
    · rename_i hSimple
      obtain ⟨c, r, hText, hStart⟩ := exists_simpleKeyText hSimple h.writable h.tags
      exact ⟨c, _, by rw [hText]; rfl, hStart⟩
    · exact ⟨'?', _, rfl, by decide⟩
  obtain ⟨q, hText⟩ := exists_indented_cons m c (r ++ nodeLines (valuePlace k) none m v)
    (entryBlocks m es)
  refine ⟨c, q, ?_, hStart⟩
  rw [entryBlocks, hKey]
  exact hText

/-- The entries of a mapping are read one after the other. -/
theorem reaches_entries (es : List (Yaml × Yaml)) : ∀ (e : Yaml × Yaml),
    (∀ f ∈ e :: es, ReadsEntry f) →
    ∀ {i l : Nat} (tokens : List Token) {p : Int} {pre : List Token} (outer : List Int),
    Opens .blockMapStart m outer p pre outer' → EndsBlock m j next →
    ∃ i' l', Reaches
      (inBlock ⟨indented m (entryBlocks m (e :: es)) ++ (spaces j ++ next), i, l, m⟩ tokens p outer
        none true)
      (inBlock ⟨next, i', l', j⟩ (tokens ++ pre ++ entryTokens (e :: es)) m outer' none true) := by
  induction es with
  | nil =>
    rintro ⟨k, v⟩ h i l tokens p pre outer hOpens hEnds
    obtain ⟨i', l', hEntry⟩ := reaches_entry (i := i) (l := l) tokens (h _ (List.mem_cons_self ..))
      hOpens hEnds
    refine ⟨i', l', ?_⟩
    simpa [entryBlocks, indented_singleton, entryTokens] using hEntry
  | cons f es ih =>
    rintro ⟨k, v⟩ h i l tokens p pre outer hOpens hEnds
    obtain ⟨he, hRest⟩ := List.forall_mem_cons.1 h
    obtain ⟨c, q, hNext, hStart⟩ :=
      exists_indented_entries (hRest f (List.mem_cons_self ..)) m es
    have hKey : EndsBlock m m (indented m (entryBlocks m (f :: es)) ++ (spaces j ++ next)) := by
      rw [hNext]
      exact .atToken _ hStart (Int.le_refl _)
    obtain ⟨i₁, l₁, hEntry⟩ := reaches_entry (i := i) (l := l) tokens he hOpens hKey
    obtain ⟨i', l', hEntries⟩ := ih f hRest (i := i₁) (l := l₁)
      (tokens ++ pre ++ .key :: (nodeTokens .marked none k ++
        .value :: nodeTokens (valuePlace k) none v)) outer' .next hEnds
    refine ⟨i', l', ?_⟩
    obtain ⟨b, bs, hBlocks⟩ : ∃ b bs, entryBlocks m (f :: es) = b :: bs := by
      obtain ⟨k', v'⟩ := f
      exact ⟨_, _, rfl⟩
    rw [hBlocks] at hEntry hEntries
    rw [entryBlocks, hBlocks, indented_cons_cons, entryTokens]
    simpa using hEntry.trans hEntries

end Blocks

section Nodes

variable {place : Place} {tag : Option String} (hTag : ∀ t, tag = some t → readsTag t = true)
include hTag

theorem readsNode_leaf {v : Yaml} (h : ∀ m, 0 < m → ∃ lines, leafLines? m v = some lines)
    (hLines : ∀ n, nodeLines place tag n v =
      place.leaf tag ((leafLines? (place.scalarIndent n) v).getD []))
    (hTokens : nodeTokens place tag v = tagTokens tag ++ leafTokens v) :
    ReadsNode place tag v := by
  intro n k j i l indent allowed next tokens outer hAt hEnds
  have hPos : 0 < place.scalarIndent n := by rw [hAt.scalarIndent]; omega
  obtain ⟨lines, hText⟩ := h _ hPos
  rw [hLines, hTokens, hText]
  exact reaches_leaf_of_place hAt hTag (leafText_of_leafLines? hPos hText) hEnds

theorem readsNode_seq {x : Yaml} {xs : List Yaml}
    (h : ∀ y ∈ x :: xs, ReadsNode .item none y) : ReadsNode place tag (.seq (x :: xs)) := by
  intro n k j i l indent allowed next tokens outer hAt hEnds
  obtain ⟨q, hNext⟩ := exists_indented_cons (place.indent tag.isSome true n) '-'
    (nodeLines .item none (place.indent tag.isSome true n) x)
    (itemBlocks (place.indent tag.isSome true n) xs)
  rw [← itemBlocks] at hNext
  obtain ⟨i₁, l₁, hOpening⟩ := reaches_opening (i := i) (l := l)
    (indented (place.indent tag.isSome true n)
      (itemBlocks (place.indent tag.isSome true n) (x :: xs)) ++ (spaces j ++ next)) tokens outer
    true hAt hTag (by
      rintro c r hText
      rw [hNext] at hText
      rw [← (List.cons.inj hText).1]
      decide)
  rw [nodeLines, nodeTokens]
  cases hShares : place.sharesColumn tag.isSome with
  | true =>
    have hSame := hAt.indent_eq_self hShares
    obtain ⟨i', l', hItems⟩ := reaches_items xs x h (i := i₁) (l := l₁)
      (tokens ++ tagTokens tag) outer .next
      (hEnds.mono (Int.le_of_eq hSame.symm))
    refine ⟨i', l', ?_⟩
    rw [hSame] at hItems
    simpa using hOpening.trans hItems
  | false =>
    have hLess := hAt.indent_lt tag.isSome true (by simpa using hShares)
    obtain ⟨i₂, l₂, hItems⟩ := reaches_items xs x h (i := i₁) (l := l₁)
      (tokens ++ tagTokens tag) outer (.first hLess)
      (hEnds.mono (Int.le_of_lt hLess))
    have hClose := reaches_close (i := i₂) (l := l₂)
      (tokens ++ tagTokens tag ++ [.blockSeqStart] ++ itemTokens (x :: xs)) outer true hEnds hLess
      hAt.column.2
    refine ⟨i₂, l₂, ?_⟩
    simpa using (hOpening.trans hItems).trans hClose

theorem readsNode_map {e : Yaml × Yaml} {es : List (Yaml × Yaml)}
    (h : ∀ f ∈ e :: es, ReadsEntry f) : ReadsNode place tag (.map (e :: es)) := by
  intro n k j i l indent allowed next tokens outer hAt hEnds
  have hLess := hAt.indent_lt tag.isSome false rfl
  obtain ⟨c, q, hNext, hStart⟩ := exists_indented_entries (h e (List.mem_cons_self ..))
    (place.indent tag.isSome false n) es
  obtain ⟨i₁, l₁, hOpening⟩ := reaches_opening (i := i) (l := l)
    (indented (place.indent tag.isSome false n)
      (entryBlocks (place.indent tag.isSome false n) (e :: es)) ++ (spaces j ++ next)) tokens outer
    false hAt hTag (by
      rintro c r hText
      rw [hNext] at hText
      rw [← (List.cons.inj hText).1]
      exact hStart)
  obtain ⟨i₂, l₂, hEntries⟩ := reaches_entries es e h (i := i₁) (l := l₁)
    (tokens ++ tagTokens tag) outer (.first hLess)
    (hEnds.mono (Int.le_of_lt hLess))
  have hClose := reaches_close (i := i₂) (l := l₂)
    (tokens ++ tagTokens tag ++ [.blockMapStart] ++ entryTokens (e :: es)) outer true hEnds hLess
    hAt.column.2
  refine ⟨i₂, l₂, ?_⟩
  rw [nodeLines, nodeTokens]
  simpa using (hOpening.trans hEntries).trans hClose

end Nodes

mutual

/-- A node is read at every place where it can stand. -/
theorem readsNode (tag : Option String) {place : Place}
    (hTag : ∀ t, tag = some t → readsTag t = true) :
    (v : Yaml) → isWritable tag.isSome v = true → tagsSatisfy readsTag v = true →
      ReadsNode place tag v
  | .tagged t v, hWritable, hTags => by
    simp only [isWritable, tagsSatisfy, Bool.and_eq_true] at hWritable hTags
    have hNode : ReadsNode place (some t) v :=
      readsNode _ (fun u hu => Option.some.inj hu ▸ hTags.1) v hWritable.2 hTags.2
    intro hAt hEnds
    rw [nodeLines, nodeTokens]
    exact hNode hAt hEnds
  | .seq (x :: xs), hWritable, hTags =>
    readsNode_seq hTag (readsNode_items (x :: xs) (by simpa [isWritable] using hWritable)
      (by simpa [tagsSatisfy] using hTags))
  | .map (e :: es), hWritable, hTags =>
    readsNode_map hTag (readsNode_entries (e :: es)
      (by simp only [isWritable, Bool.and_eq_true] at hWritable; exact hWritable.2)
      (by simpa [tagsSatisfy] using hTags))
  | .null, _, _ | .bool true, _, _ | .bool false, _, _ | .int _, _, _ | .float _, _, _
  | .str _, _, _ | .seq [], _, _ | .map [], _, _ =>
    readsNode_leaf hTag (fun _ _ => ⟨_, rfl⟩) (fun _ => rfl) rfl

theorem readsNode_items :
    (xs : List Yaml) → allWritable xs = true → itemTagsSatisfy readsTag xs = true →
      ∀ x ∈ xs, ReadsNode .item none x
  | [], _, _ => by simp
  | x :: xs, hWritable, hTags => by
    simp only [allWritable, itemTagsSatisfy, Bool.and_eq_true] at hWritable hTags
    refine List.forall_mem_cons.2 ⟨?_, readsNode_items xs hWritable.2 hTags.2⟩
    exact readsNode none (by simp) x hWritable.1 hTags.1

theorem readsNode_entries :
    (es : List (Yaml × Yaml)) → entriesWritable es = true → entryTagsSatisfy readsTag es = true →
      ∀ e ∈ es, ReadsEntry e
  | [], _, _ => by simp
  | (k, v) :: es, hWritable, hTags => by
    simp only [entriesWritable, entryTagsSatisfy, Bool.and_eq_true] at hWritable hTags
    refine List.forall_mem_cons.2 ⟨⟨?_, ?_, hWritable.1.1, hTags.1.1⟩,
      readsNode_entries es hWritable.2 hTags.2⟩
    · exact readsNode none (by simp) k hWritable.1.1 hTags.1.1
    · exact readsNode none (by simp) v hWritable.1.2 hTags.1.2

end

end KubeCompose.Yaml
