import KubeCompose.Proofs.OrderedMap
import KubeCompose.Proofs.RoundTrip.Nodes

/-!
# Tags without a zero byte

A tag ends before the first byte of it that is zero, so no token of a scan holds one, and no node
that is read from the tokens has one in its tag.
-/

namespace KubeCompose.Yaml

/-- Whether the tag of a token holds no zero byte. -/
def Token.zeroFree : Token → Bool
  | .tagHandle _ bytes | .tag _ bytes => !bytes.contains 0
  | _ => true

/-- What a reader gives satisfies `Q`. -/
def Gives {α : Type} (Q : α → Prop) (x : Except ReadError α) : Prop := ∀ a, x = .ok a → Q a

namespace Gives

variable {α β : Type} {P : α → Prop} {Q : β → Prop} {x : Except ReadError α}

theorem ok {b : β} (h : Q b) : Gives Q (.ok b) := by
  rintro _ ⟨⟩
  exact h

theorem throw (e : ReadError) : Gives Q (.error e) := by
  rintro _ ⟨⟩

theorem bind {f : α → Except ReadError β} (hx : Gives P x) (hf : ∀ a, P a → Gives Q (f a)) :
    Gives Q (x >>= f) := by
  intro b hb
  obtain ⟨a, ha, hb⟩ := exists_of_bind_eq_ok hb
  exact hf a (hx a ha) b hb

/-- What is read first may be anything. -/
theorem behind {f : α → Except ReadError β} (hf : ∀ a, Gives Q (f a)) : Gives Q (x >>= f) :=
  bind (P := fun _ => True) (fun _ _ => trivial) fun a _ => hf a

theorem ite {p : Prop} [Decidable p] {x y : Except ReadError β} (hx : Gives Q x)
    (hy : Gives Q y) : Gives Q (if p then x else y) := by
  split
  · exact hx
  · exact hy

end Gives

/-! ### Tags and directives -/

theorem gives_unescapeTag (cs : List Char) :
    Gives (fun bytes => bytes.contains 0 = false) (unescapeTag cs) := by
  intro bytes h
  obtain ⟨all, -, rfl⟩ := exists_of_map_eq_ok h
  rw [List.contains_eq_mem, decide_eq_false_iff_not]
  intro hMem
  have hAll := List.all_takeWhile (p := (· != (0 : UInt8))) (l := all)
  exact absurd (List.all_eq_true.1 hAll 0 hMem) (by decide)

theorem zero_notMem_of_isWordChar (cs : List Char) (h : ∀ c ∈ cs, isWordChar c = true) :
    (String.ofList cs).toUTF8.toList.contains 0 = false := by
  rw [toUTF8_toList_ofList, List.contains_eq_mem, decide_eq_false_iff_not]
  intro hMem
  obtain ⟨c, hc, hMem⟩ := List.mem_flatMap.1 hMem
  refine zero_notMem_utf8EncodeChar ?_ hMem
  rintro rfl
  exact absurd (h _ hc) (by decide)

/-- A token that is read with what is left of the text. -/
abbrev GivesToken (x : Except ReadError (Token × Cursor)) : Prop :=
  Gives (fun p => p.1.zeroFree = true) x

theorem gives_scanTag (inFlow : Bool) (c : Cursor) : GivesToken (scanTag inFlow c) := by
  have hEnd : ∀ p : Token × Cursor, p.1.zeroFree = true → GivesToken (
      if endsWord p.2.rest || (inFlow && p.2.peek? == some ',') then .ok p
      else .error .badTag) := fun p hp => .ite (.ok hp) (.throw _)
  unfold scanTag
  dsimp only
  refine .ite (.ite (.throw _) ?_) (.ite (.ite (.throw _) ?_) ?_)
  · refine .bind (gives_unescapeTag _) fun bytes hBytes => hEnd _ ?_
    simpa [Token.zeroFree] using hBytes
  · refine .bind (gives_unescapeTag _) fun bytes hBytes => hEnd _ ?_
    simpa [Token.zeroFree] using hBytes
  · refine .bind (gives_unescapeTag _) fun bytes hBytes => hEnd _ ?_
    dsimp only
    have hWord := zero_notMem_of_isWordChar (c.rest.takeWhile isWordChar)
      fun d hd => List.all_eq_true.1 List.all_takeWhile d hd
    split
    · rw [Token.zeroFree, toUTF8_toList_ofList ['!']]
      decide
    · rw [Token.zeroFree, List.contains_append, hWord, hBytes]
      rfl

theorem gives_scanDirective (c : Cursor) : GivesToken (scanDirective c) := by
  have hEnd : ∀ p : Token × Cursor, p.1.zeroFree = true → GivesToken (
      let c := (p.2.advanceWhile isSpaceOrTab).skipComment
      if endsLine c.rest then .ok (p.1, c.nextLine) else .error .badDirective) :=
    fun p hp => .ite (.ok hp) (.throw _)
  unfold scanDirective
  dsimp only
  refine .ite (.throw _) (.ite ?_ (.ite ?_ (.throw _)))
  · exact .behind fun (major, c) => .ite (.throw _) (.behind fun (minor, d) =>
      hEnd (.version major minor, d) rfl)
  · refine .ite (.throw _) (.ite (.throw _)
      (.ite (.throw _) (.ite (.throw _) (.ite (.throw _) ?_))))
    refine .bind (gives_unescapeTag _) fun bytes hBytes =>
      .bind (.ok (Q := fun p : Token × Cursor => p.1.zeroFree = true) ?_) fun p hp => hEnd p hp
    simpa [Token.zeroFree] using hBytes

/-! ### Scans -/

namespace Scan

/-- A scan whose tokens hold no zero byte in a tag. -/
def ZeroFree (s : Scan) : Prop := ∀ t ∈ s.tokens, t.zeroFree = true

variable {s : Scan} {t : Token}

theorem ZeroFree.push (h : s.ZeroFree) (ht : t.zeroFree = true) : (s.push t).ZeroFree := by
  intro u hu
  rcases Array.mem_push.1 hu with hu | rfl
  · exact h u hu
  · exact ht

theorem ZeroFree.insertAt (h : s.ZeroFree) (position : Nat) (ht : t.zeroFree = true) :
    (s.insertAt position t).ZeroFree := by
  intro u hu
  simp only [Scan.insertAt, Array.insertIdxIfInBounds] at hu
  split at hu
  · rcases Array.mem_insertIdx.1 hu with rfl | hu
    · exact ht
    · exact h u hu
  · exact h u hu

theorem ZeroFree.openBlock (h : s.ZeroFree) (column position : Nat) (ht : t.zeroFree = true) :
    (s.openBlock column position t).ZeroFree := by
  unfold Scan.openBlock
  split
  · exact h.insertAt position ht
  · exact h

theorem ZeroFree.closeBlocks (h : s.ZeroFree) (column : Int) : (s.closeBlocks column).ZeroFree := by
  have hClose : ∀ (outer : List Int) (indent : Int) (tokens : Array Token),
      (∀ t ∈ tokens, t.zeroFree = true) →
        ∀ t ∈ (closeBlocks.close column outer indent tokens).2.2, t.zeroFree = true := by
    intro outer
    induction outer with
    | nil => exact fun _ _ h => h
    | cons i r ih =>
      intro indent tokens h
      rw [closeBlocks.close]
      split
      · refine ih _ _ fun t ht => ?_
        rcases Array.mem_push.1 ht with ht | rfl
        · exact h t ht
        · rfl
      · exact h
  unfold Scan.closeBlocks
  split
  · exact h
  · exact hClose _ _ _ h

theorem ZeroFree.skipToToken (h : s.ZeroFree) (fuel : Nat) : (s.skipToToken fuel).ZeroFree := by
  induction fuel generalizing s with
  | zero => exact h
  | succ fuel ih =>
    rw [Scan.skipToToken]
    generalize (if s.cursor.column = 0 ∧ s.cursor.peek? = some '\ufeff' then s.cursor.advance 1
      else s.cursor) = c
    split
    · exact ih h
    · exact h

section Steps

variable (h : s.ZeroFree)
include h

theorem gives_dropKey : Gives ZeroFree s.dropKey := .ite (.throw _) (.ok h)

theorem gives_saveKey : Gives ZeroFree s.saveKey :=
  .ite (.bind (gives_dropKey h) fun _ ht => .ok ht) (.ok h)

theorem gives_dropStaleKeys : Gives ZeroFree s.dropStaleKeys := .ite (.throw _) (.ok h)

theorem gives_openAtIndicator (indicator : Char) (ht : t.zeroFree = true) :
    Gives ZeroFree (s.openAtIndicator indicator t) :=
  .ite (.ok h) (.ite (.ok (h.openBlock _ _ ht)) (.throw _))

theorem gives_closeAll : Gives ZeroFree s.closeAll :=
  .bind (gives_dropKey (h.closeBlocks (-1))) fun _ ht => .ok ht

theorem gives_openFlow (ht : t.zeroFree = true) : Gives ZeroFree (s.openFlow t) :=
  .bind (gives_saveKey h) fun _ hs => .ok (hs.push ht)

theorem gives_closeFlow (ht : t.zeroFree = true) : Gives ZeroFree (s.closeFlow t) := by
  refine .bind (gives_dropKey h) fun u hu => ?_
  dsimp only
  split
  · exact .ok (hu.push ht)
  · exact .ok (hu.push ht)

theorem gives_colon : Gives ZeroFree s.colon := by
  unfold colon
  dsimp only
  split
  · exact .ok (ZeroFree.push (t := .value) ((h.insertAt _ rfl).openBlock _ _ rfl) rfl)
  · exact .bind (gives_openAtIndicator h ':' rfl) fun u hu =>
      .ok (ZeroFree.push (t := .value) hu rfl)

/-- A token that a reader gives is put behind the others. -/
theorem gives_node (skip : Nat) {read : Cursor → Except ReadError (Token × Cursor)}
    (hRead : ∀ c, GivesToken (read c)) : Gives ZeroFree (s.node skip read) :=
  .bind (gives_saveKey h) fun _ hu => .bind (hRead _) fun _ ht => .ok (hu.push ht)

theorem gives_plain (fuel : Nat) : Gives ZeroFree (s.plain fuel) :=
  .bind (gives_saveKey h) fun _ hu => .behind fun _ => .ok (hu.push (t := .scalar _ true) rfl)

theorem gives_block (fuel : Nat) (literal : Bool) : Gives ZeroFree (s.block fuel literal) :=
  .bind (gives_dropKey h) fun _ hu => .behind fun _ => .ok (hu.push (t := .scalar _ false) rfl)

theorem gives_quoted (fuel : Nat) (quote : Char) : Gives ZeroFree (s.quoted fuel quote) :=
  gives_node h 1 fun _ => .behind fun _ => .ok rfl

/-- No token puts a zero byte in a tag. -/
theorem gives_readToken (fuel : Nat) (c : Char) (r : List Char) :
    Gives ZeroFree (s.readToken fuel c r) := by
  have hName : ∀ make : String → Token, (∀ name, (make name).zeroFree = true) →
      ∀ c, GivesToken ((scanAnchor c).map fun p => (make p.1, p.2)) := by
    intro make hMake c p hScan
    obtain ⟨⟨name, d⟩, -, rfl⟩ := exists_of_map_eq_ok hScan
    exact hMake name
  have hItem : Gives ZeroFree s.blockItem := .bind (gives_openAtIndicator h '-' rfl) fun _ hu =>
    .bind (gives_dropKey hu) fun _ hv => .ok (hv.push (t := .item) rfl)
  have hKey : Gives ZeroFree s.explicitKey := .bind (gives_openAtIndicator h '?' rfl) fun _ hu =>
    .bind (gives_dropKey hu) fun _ hv => .ok (hv.push (t := .key) rfl)
  have hComma : Gives ZeroFree s.flowComma :=
    .bind (gives_dropKey h) fun _ hu => .ok (hu.push (t := .comma) rfl)
  unfold readToken
  refine .ite (.bind (gives_closeAll h) fun _ hu => .bind (gives_scanDirective _) fun _ ht =>
    .ok (hu.push ht)) ?_
  refine .ite (.bind (gives_closeAll h) fun _ hu => .ok (hu.push (t := .documentStart) rfl)) ?_
  refine .ite (.bind (gives_closeAll h) fun _ hu => .ok (hu.push (t := .documentEnd) rfl)) ?_
  refine .ite (gives_openFlow h rfl) (.ite (gives_openFlow h rfl) ?_)
  refine .ite (gives_closeFlow h rfl) (.ite (gives_closeFlow h rfl) ?_)
  refine .ite hComma (.ite hItem (.ite hKey (.ite (gives_colon h) ?_)))
  refine .ite (gives_node h 1 (hName .alias fun _ => rfl)) ?_
  refine .ite (gives_node h 1 (hName .anchor fun _ => rfl)) ?_
  refine .ite (gives_node h 1 (gives_scanTag _)) ?_
  refine .ite (gives_block h fuel true) (.ite (gives_block h fuel false) ?_)
  refine .ite (gives_quoted h fuel '\'') (.ite (gives_quoted h fuel '"') ?_)
  exact .ite (gives_plain h fuel) (.throw _)

theorem gives_run (fuel : Nat) :
    Gives (fun tokens => ∀ t ∈ tokens, t.zeroFree = true) (s.run fuel) := by
  induction fuel generalizing s with
  | zero => exact .ok (by simpa [ZeroFree] using h)
  | succ fuel ih =>
    rw [run]
    refine .bind (gives_dropStaleKeys (h.skipToToken _)) fun u hu => ?_
    dsimp only
    split
    · refine .bind (gives_dropKey ((hu.closeBlocks _).closeBlocks _)) fun v hv => .ok ?_
      exact fun t ht => hv t (Array.mem_toList_iff.1 ht)
    · exact .bind (gives_readToken (hu.closeBlocks _) _ _ _) fun v hv => ih hv

end Steps

end Scan

/-- No token of a text holds a zero byte in a tag. -/
theorem gives_tokens (text : String) :
    Gives (fun tokens => ∀ t ∈ tokens, t.zeroFree = true) (tokens text) := by
  unfold tokens
  dsimp only
  split
  · exact .throw _
  · exact Scan.gives_run (fun t ht => by simp [Scan.start] at ht) _

/-! ### Nodes -/

/-- Whether the tag of a node holds no zero byte. -/
def Properties.zeroFree (p : Properties) : Bool := p.tag.all fun bytes => !bytes.contains 0

mutual

/-- Whether no tag in a node holds a zero byte. -/
def Node.zeroFree : Node → Bool
  | .alias _ => true
  | .scalar p _ _ => p.zeroFree
  | .seq p items => p.zeroFree && Node.itemsZeroFree items
  | .map p entries => p.zeroFree && Node.entriesZeroFree entries

/-- Whether no tag in a list of nodes holds a zero byte. -/
def Node.itemsZeroFree : List Node → Bool
  | [] => true
  | n :: r => n.zeroFree && Node.itemsZeroFree r

/-- Whether no tag in a list of entries holds a zero byte. -/
def Node.entriesZeroFree : List (Node × Node) → Bool
  | [] => true
  | (k, v) :: r => k.zeroFree && v.zeroFree && Node.entriesZeroFree r

end

namespace Node

open Reader

/-- What is still to read holds no zero byte in a tag. -/
structure Source.ZeroFree (s : Source) : Prop where
  tokens : ∀ t ∈ s.tokens, t.zeroFree = true
  handles : ∀ h ∈ s.handles, h.2.contains 0 = false

/-- A reader that gives what satisfies `Q`. -/
def Keeps {α : Type} (Q : α → Prop) (x : Reader α) : Prop :=
  ∀ s, s.ZeroFree → Gives (fun p => Q p.1 ∧ p.2.ZeroFree) (x.run s)

namespace Keeps

variable {α β : Type} {P : α → Prop} {Q : β → Prop} {x : Reader α}

theorem pure {b : β} (h : Q b) : Keeps Q (pure b) := fun _ hs => .ok ⟨h, hs⟩

theorem throw (e : ReadError) : Keeps Q (throw e) := fun _ _ => .throw e

theorem bind {f : α → Reader β} (hx : Keeps P x) (hf : ∀ a, P a → Keeps Q (f a)) :
    Keeps Q (x >>= f) := by
  intro s hs
  rw [StateT.run_bind]
  exact .bind (hx s hs) fun p hp => hf p.1 hp.1 p.2 hp.2

/-- What is read first may be anything. -/
theorem behind {f : α → Reader β} (hx : Keeps (fun _ => True) x) (hf : ∀ a, Keeps Q (f a)) :
    Keeps Q (x >>= f) := bind hx fun a _ => hf a

theorem ite {p : Prop} [Decidable p] {x y : Reader β} (hx : Keeps Q x) (hy : Keeps Q y) :
    Keeps Q (if p then x else y) := by
  split
  · exact hx
  · exact hy

end Keeps

/-- A token that may be there holds no zero byte in a tag. -/
abbrev TokenFree (t : Option Token) : Prop := t.all Token.zeroFree = true

theorem keeps_peek? : Keeps TokenFree peek? := by
  refine fun s hs => .ok ⟨?_, hs⟩
  exact (Option.all_eq_true ..).2 fun t ht => hs.tokens t (List.mem_of_mem_head? ht)

theorem keeps_skip : Keeps (fun _ => True) skip :=
  fun _ hs => .ok ⟨trivial, fun t ht => hs.tokens t (List.mem_of_mem_tail ht), hs.handles⟩

theorem keeps_isAt (t : Token) : Keeps (fun _ => True) (isAt t) :=
  .bind keeps_peek? fun _ _ => .pure trivial

theorem keeps_isAtAny (ts : List Token) : Keeps (fun _ => True) (isAtAny ts) :=
  .bind keeps_peek? fun _ _ => .pure trivial

theorem keeps_accept (t : Token) : Keeps (fun _ => True) (accept t) :=
  .behind (keeps_isAt t) fun _ => .ite (.behind keeps_skip fun _ => .pure trivial) (.pure trivial)

theorem keeps_defineAnchor (name : String) : Keeps (fun _ => True) (defineAnchor name) :=
  fun _ hs => .ok ⟨trivial, hs.tokens, hs.handles⟩

theorem keeps_get : Keeps Source.ZeroFree (get : Reader Source) := fun _ hs => .ok ⟨hs, hs⟩

theorem keeps_anchorNumber (name : String) : Keeps (fun _ => True) (anchorNumber name) := by
  refine .bind keeps_get fun s _ => ?_
  split
  · exact .pure trivial
  · exact .throw _

/-- A tag in full is put together of a handle and what was written. -/
theorem keeps_resolveTag (handle : String) {suffix : TagBytes} (h : suffix.contains 0 = false) :
    Keeps (fun bytes => bytes.contains 0 = false) (resolveTag handle suffix) := by
  refine .ite (.pure h) (.bind keeps_get fun s hs => ?_)
  split
  · rename_i replacement hFind
    have hHandle := hs.handles _ (OrderedMap.mem_of_find? hFind)
    exact .pure (by rw [List.contains_append, hHandle, h]; rfl)
  · exact .throw _

/-- The tag of what may stand in front of a node holds no zero byte. -/
abbrev WrittenFree (p : Option String × Option (String × TagBytes)) : Prop :=
  p.2.all (fun t => !t.2.contains 0) = true

theorem keeps_rawProperties : Keeps WrittenFree rawProperties := by
  refine .bind keeps_peek? fun t ht => ?_
  split
  · refine .behind keeps_skip fun _ => .bind keeps_peek? fun u hu => ?_
    split
    · exact .behind keeps_skip fun _ => .pure hu
    · exact .pure rfl
  · refine .behind keeps_skip fun _ => .bind keeps_peek? fun u _ => ?_
    split
    · exact .behind keeps_skip fun _ => .pure ht
    · exact .pure ht
  · exact .pure rfl

theorem keeps_properties : Keeps (fun p => p.zeroFree = true) properties := by
  refine .bind keeps_rawProperties fun (anchor, tag) hTag => ?_
  refine .bind (P := fun tag => tag.all (fun bytes => !bytes.contains 0) = true) ?_
    fun tag hTag => .behind ?_ fun anchor => .pure hTag
  · cases tag with
    | none => exact .pure rfl
    | some t =>
      have hFree : t.2.contains 0 = false := by simpa [WrittenFree] using hTag
      exact .bind (keeps_resolveTag t.1 hFree) fun bytes hBytes => .pure (by simpa using hBytes)
  · cases anchor with
    | none => exact .pure trivial
    | some name => exact .behind (keeps_defineAnchor name) fun _ => .pure trivial

/-! ### The grammar -/

abbrev NodeFree (n : Node) : Prop := n.zeroFree = true

abbrev ItemsFree (items : List Node) : Prop := itemsZeroFree items = true

abbrev EntriesFree (entries : List (Node × Node)) : Prop := entriesZeroFree entries = true

/-- The readers of nodes and of the parts of collections with the same fuel. -/
structure ReadsFree (fuel : Nat) : Prop where
  node : ∀ block dashes, Keeps NodeFree (read block dashes fuel)
  blockSeq : Keeps ItemsFree (readBlockSeq fuel)
  dashes : Keeps ItemsFree (readDashes fuel)
  blockMap : Keeps EntriesFree (readBlockMap fuel)
  flowSeq : ∀ first, Keeps ItemsFree (readFlowSeq first fuel)
  flowMap : ∀ first, Keeps EntriesFree (readFlowMap first fuel)

theorem keeps_absent {props : Properties} (h : props.zeroFree = true) :
    Keeps NodeFree (readAbsent props) := by
  unfold readAbsent
  exact .ite (.pure (by simpa [NodeFree, zeroFree] using h)) (.throw _)

/-- A part of a collection that may be absent, with what follows it. -/
theorem keeps_part {β : Type} {Q : β → Prop} {ts : List Token} {x : Reader Node}
    {f : Node → Reader β} (hx : Keeps NodeFree x) (hf : ∀ n, NodeFree n → Keeps Q (f n)) :
    Keeps Q (do if ← isAtAny ts then f (← Pure.pure absent) else f (← x)) :=
  .behind (keeps_isAtAny ts) fun _ => .ite (hf absent rfl) (.bind hx hf)

/-- The comma in front of a part but the first. -/
theorem keeps_comma {β : Type} {Q : β → Prop} {x : Reader β} (first : Bool) (hx : Keeps Q x) :
    Keeps Q (do
      if !first then
        if !(← accept .comma) then MonadExcept.throw ReadError.unexpectedToken
      x) :=
  .ite (.behind (keeps_accept _) fun _ => .ite (.bind (.throw (Q := fun _ => True) _) fun _ _ => hx)
    hx) hx

theorem itemsFree_cons {n : Node} {r : List Node} (hn : NodeFree n) (hr : ItemsFree r) :
    ItemsFree (n :: r) := by
  simp_all [ItemsFree, itemsZeroFree]

theorem entriesFree_cons {k v : Node} {r : List (Node × Node)} (hk : NodeFree k) (hv : NodeFree v)
    (hr : EntriesFree r) : EntriesFree ((k, v) :: r) := by
  simp_all [EntriesFree, entriesZeroFree]

section Grammar

variable {fuel : Nat} (h : ReadsFree fuel)
include h

theorem keeps_read (block dashes : Bool) : Keeps NodeFree (read block dashes (fuel + 1)) := by
  rw [read]
  refine .bind keeps_peek? fun t _ => ?_
  split
  · exact .behind keeps_skip fun _ => .behind (keeps_anchorNumber _) fun _ => .pure rfl
  refine .bind keeps_properties fun props hProps => .bind keeps_peek? fun u _ => ?_
  have hSeq : ∀ {x : Reader (List Node)}, Keeps ItemsFree x →
      Keeps NodeFree (do return .seq props (← x)) := fun hx =>
    .bind hx fun items hItems => .pure (by simp_all [NodeFree, zeroFree])
  have hMap : ∀ {x : Reader (List (Node × Node))}, Keeps EntriesFree x →
      Keeps NodeFree (do return .map props (← x)) := fun hx =>
    .bind hx fun entries hEntries => .pure (by simp_all [NodeFree, zeroFree])
  split
  · exact .ite (hSeq h.dashes) (keeps_absent hProps)
  · exact .behind keeps_skip fun _ => .pure (by simpa [NodeFree, zeroFree] using hProps)
  · exact .behind keeps_skip fun _ => hSeq (h.flowSeq true)
  · exact .behind keeps_skip fun _ => hMap (h.flowMap true)
  · exact .ite (.behind keeps_skip fun _ => hSeq h.blockSeq) (keeps_absent hProps)
  · exact .ite (.behind keeps_skip fun _ => hMap h.blockMap) (keeps_absent hProps)
  · exact keeps_absent hProps

theorem keeps_readBlockSeq : Keeps ItemsFree (readBlockSeq (fuel + 1)) := by
  rw [readBlockSeq]
  have hRest : ∀ n, NodeFree n → Keeps ItemsFree (do return n :: (← readBlockSeq fuel)) :=
    fun _ hn => .bind h.blockSeq fun _ hr => .pure (itemsFree_cons hn hr)
  exact .behind (keeps_accept _) fun _ => .ite (keeps_part (h.node true false) hRest)
    (.behind (keeps_accept _) fun _ => .ite (.pure rfl) (.throw _))

theorem keeps_readDashes : Keeps ItemsFree (readDashes (fuel + 1)) := by
  rw [readDashes]
  have hRest : ∀ n, NodeFree n → Keeps ItemsFree (do return n :: (← readDashes fuel)) :=
    fun _ hn => .bind h.dashes fun _ hr => .pure (itemsFree_cons hn hr)
  exact .behind (keeps_accept _) fun _ => .ite (keeps_part (h.node true false) hRest) (.pure rfl)

theorem keeps_readBlockMap : Keeps EntriesFree (readBlockMap (fuel + 1)) := by
  rw [readBlockMap]
  have hRest : ∀ k v, NodeFree k → NodeFree v →
      Keeps EntriesFree (do return (k, v) :: (← readBlockMap fuel)) :=
    fun _ _ hk hv => .bind h.blockMap fun _ hr => .pure (entriesFree_cons hk hv hr)
  refine .behind (keeps_accept _) fun _ => .ite ?_
    (.behind (keeps_accept _) fun _ => .ite (.pure rfl) (.throw _))
  refine keeps_part (h.node true true) fun k hk => .behind (keeps_accept _) fun _ => .ite ?_ ?_
  · exact keeps_part (h.node true true) fun v hv => hRest k v hk hv
  · exact hRest k absent hk rfl

/-- The value of an entry in brackets or braces, with what follows it. -/
theorem keeps_flowValue {β : Type} {Q : β → Prop} {ts : List Token} {f : Node → Reader β}
    (hf : ∀ n, NodeFree n → Keeps Q (f n)) :
    Keeps Q (do
      if ← accept .value then
        if ← isAtAny ts then f (← Pure.pure absent) else f (← read false false fuel)
      else f (← Pure.pure absent)) :=
  .behind (keeps_accept _) fun _ => .ite (keeps_part (h.node false false) hf) (hf absent rfl)

theorem keeps_readFlowSeq (first : Bool) : Keeps ItemsFree (readFlowSeq first (fuel + 1)) := by
  rw [readFlowSeq]
  have hRest : ∀ n, NodeFree n → Keeps ItemsFree (do return n :: (← readFlowSeq false fuel)) :=
    fun _ hn => .bind (h.flowSeq false) fun _ hr => .pure (itemsFree_cons hn hr)
  have hPair : ∀ k v, NodeFree k → NodeFree v → NodeFree (.map ⟨none, none⟩ [(k, v)]) := by
    intro k v hk hv
    simp_all [NodeFree, zeroFree, entriesZeroFree, Properties.zeroFree]
  refine .behind (keeps_accept _) fun _ => .ite (.pure rfl) (keeps_comma first ?_)
  refine .behind (keeps_accept _) fun _ => .ite (.pure rfl) ?_
  refine .behind (keeps_accept _) fun _ => .ite ?_ (.bind (h.node false false) hRest)
  refine .behind (keeps_isAtAny _) fun _ => .ite (.behind keeps_skip fun _ => ?_)
    (.bind (h.node false false) fun k hk => ?_)
  · exact keeps_flowValue h fun v hv => hRest _ (hPair absent v rfl hv)
  · exact keeps_flowValue h fun v hv => hRest _ (hPair k v hk hv)

theorem keeps_readFlowMap (first : Bool) : Keeps EntriesFree (readFlowMap first (fuel + 1)) := by
  rw [readFlowMap]
  have hRest : ∀ k v, NodeFree k → NodeFree v →
      Keeps EntriesFree (do return (k, v) :: (← readFlowMap false fuel)) :=
    fun _ _ hk hv => .bind (h.flowMap false) fun _ hr => .pure (entriesFree_cons hk hv hr)
  refine .behind (keeps_accept _) fun _ => .ite (.pure rfl) (keeps_comma first ?_)
  refine .behind (keeps_accept _) fun _ => .ite (.pure rfl) ?_
  refine .behind (keeps_accept _) fun _ => .ite ?_
    (.bind (h.node false false) fun k hk => hRest k absent hk rfl)
  exact keeps_part (h.node false false) fun k hk => keeps_flowValue h fun v hv => hRest k v hk hv

end Grammar

/-- No node that is read has a zero byte in a tag. -/
theorem readsFree (fuel : Nat) : ReadsFree fuel := by
  induction fuel with
  | zero =>
    refine ⟨fun _ _ => ?_, ?_, ?_, ?_, fun _ => ?_, fun _ => ?_⟩
    · rw [read]
      exact .throw _
    · rw [readBlockSeq]
      exact .throw _
    · rw [readDashes]
      exact .throw _
    · rw [readBlockMap]
      exact .throw _
    · rw [readFlowSeq]
      exact .throw _
    · rw [readFlowMap]
      exact .throw _
  | succ fuel ih =>
    exact ⟨keeps_read ih, keeps_readBlockSeq ih, keeps_readDashes ih, keeps_readBlockMap ih,
      keeps_readFlowSeq ih, keeps_readFlowMap ih⟩

/-! ### Documents -/

abbrev HandlesFree (handles : List (String × TagBytes)) : Prop :=
  ∀ h ∈ handles, h.2.contains 0 = false

theorem keeps_readDirectives (fuel : Nat) : ∀ {handles : List (String × TagBytes)}
    (versioned : Bool), HandlesFree handles →
      Keeps HandlesFree (readDirectives handles versioned fuel) := by
  induction fuel with
  | zero => exact fun _ h => .pure h
  | succ fuel ih =>
    intro handles versioned h
    rw [readDirectives]
    refine .bind keeps_peek? fun t ht => ?_
    split
    · exact .ite (.throw _) (.behind keeps_skip fun _ => ih true h)
    · rename_i handle replacement
      refine .ite (.throw _) (.behind keeps_skip fun _ => ih versioned ?_)
      refine List.forall_mem_append.2 ⟨h, List.forall_mem_singleton.2 ?_⟩
      simpa [TokenFree, Token.zeroFree] using ht
    · exact .pure h

theorem handlesFree_standardHandles : HandlesFree standardHandles := by
  refine List.forall_mem_cons.2 ⟨?_, List.forall_mem_singleton.2 ?_⟩
  · rw [toUTF8_toList_ofList ['!']]
    decide
  · have hBytes := toUTF8_toList_ofList "tag:yaml.org,2002:".toList
    rw [String.ofList_toList] at hBytes
    rw [hBytes]
    decide

theorem keeps_modify {g : Source → Source} (h : ∀ s, s.ZeroFree → (g s).ZeroFree) :
    Keeps (fun _ => True) (modify g) := fun s hs => .ok ⟨trivial, h s hs⟩

/-- A document that may be there. -/
theorem keeps_readDocument? (first : Bool) (fuel : Nat) :
    Keeps (fun n => n.all zeroFree = true) (readDocument? first fuel) := by
  have hNode := (readsFree fuel).node true false
  have hEnd : ∀ n, NodeFree n → Keeps (fun n => n.all zeroFree = true)
      (do let _ ← accept .documentEnd; return some n) := fun n hn =>
    .behind (keeps_accept _) fun _ => .pure hn
  have hContent : ∀ started : Bool, Keeps (fun n => n.all zeroFree = true) (do
      let node ←
        if started then
          let next ← peek?
          if next.all fun t => t.isDirective || t == .documentStart || t == .documentEnd then
            Pure.pure absent
          else read true false fuel
        else read true false fuel
      let _ ← accept .documentEnd
      return some node) := fun _ =>
    .ite (.bind keeps_peek? fun _ _ => .ite (hEnd absent rfl) (.bind hNode hEnd))
      (.bind hNode hEnd)
  unfold readDocument?
  refine .ite (.behind (keeps_modify fun s hs => ⟨fun t ht =>
    hs.tokens t ((List.dropWhile_suffix _).subset ht), hs.handles⟩) fun _ => ?_) ?_
  -- The first document is read as the others are, behind what ends the one before it.
  all_goals
    refine .bind keeps_get fun s _ => .ite (.pure rfl) ?_
    refine .behind (keeps_modify fun s hs => ⟨hs.tokens, hs.handles⟩) fun _ => ?_
    refine .bind keeps_peek? fun t _ => ?_
    refine .bind (keeps_readDirectives fuel false (by simp [HandlesFree])) fun handles h => ?_
    refine .behind (keeps_modify fun s hs => ⟨hs.tokens, List.forall_mem_append.2
      ⟨h, handlesFree_standardHandles⟩⟩) fun _ => .behind (keeps_accept _) fun started => ?_
    exact .ite (.bind (.throw (Q := fun _ => True) _) fun _ _ => hContent started)
      (hContent started)

theorem keeps_readDocuments (first : Bool) (size fuel : Nat) :
    Keeps ItemsFree (readDocuments first size fuel) := by
  induction fuel generalizing first with
  | zero => exact .pure rfl
  | succ fuel ih =>
    rw [readDocuments]
    refine .bind (keeps_readDocument? first size) fun n hn => ?_
    split
    · exact .pure rfl
    · rename_i node
      refine .bind (ih false) fun r hr => .pure (itemsFree_cons ?_ hr)
      simpa using hn

theorem forall_of_itemsFree : {nodes : List Node} → ItemsFree nodes → ∀ n ∈ nodes, n.zeroFree = true
  | [], _ => by simp
  | n :: r, h => by
    simp only [ItemsFree, itemsZeroFree, Bool.and_eq_true] at h
    exact List.forall_mem_cons.2 ⟨h.1, forall_of_itemsFree h.2⟩

/-- No node of a text has a zero byte in a tag. -/
theorem gives_allOfText (text : String) :
    Gives (fun nodes => ∀ n ∈ nodes, n.zeroFree = true) (allOfText text) := by
  refine .bind (gives_tokens text) fun tokens hTokens => ?_
  intro nodes hNodes
  obtain ⟨p, hRun, rfl⟩ := exists_of_map_eq_ok hNodes
  exact forall_of_itemsFree (keeps_readDocuments true _ _ _ ⟨hTokens, by simp⟩ p hRun).1

end Node

end KubeCompose.Yaml
