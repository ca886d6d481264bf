import KubeCompose.Proofs.RoundTrip.Block
import KubeCompose.Proofs.RoundTrip.Tag

/-!
# Steps of a scan

What one token does to a scan outside of brackets: the tokens that are read by themselves, the marks
that open a block or go on with it, and the colon that makes a key of what stands before it.
-/

namespace KubeCompose.Yaml.Scan

variable {rest tail : List Char} {i l k : Nat} {tokens : List Token} {indent : Int}
  {outer : List Int} {key : Option SimpleKey} {allowed : Bool}

/-! ### Possible keys -/

/-- The possible key behind a token that may be one. -/
def savedKey (c : Cursor) (position : Nat) (indent : Int) (key : Option SimpleKey)
    (allowed : Bool) : Option SimpleKey :=
  if allowed then some ⟨position, decide (indent = c.column), c.index, c.line, c.column⟩ else key

theorem saveKey_inBlock (tokens : List Token) (indent : Int) (outer : List Int) {c : Cursor}
    (h : allowed = true → Idle key) :
    (inBlock c tokens indent outer key allowed).saveKey =
      .ok (inBlock c tokens indent outer (savedKey c tokens.length indent key allowed)
        allowed) := by
  cases allowed with
  | false => rfl
  | true =>
    have hDrop : (key.any (·.required)) = false := by
      cases key with
      | none => rfl
      | some k => exact h rfl k rfl
    simp [saveKey, dropKey, hDrop, savedKey, inFlow, bind, Except.bind, pure, Except.pure]

theorem dropKey_inBlock {c : Cursor} (h : Idle key) :
    (inBlock c tokens indent outer key allowed).dropKey =
      .ok (inBlock c tokens indent outer none allowed) := by
  have hDrop : (key.any (·.required)) = false := by
    cases key with
    | none => rfl
    | some k => exact h k rfl
  simp [dropKey, hDrop]

/-- A key that need not be one is given up or may still be one. -/
theorem exists_fresh (tokens : List Token) (indent : Int) (outer : List Int) (allowed : Bool)
    {c : Cursor} (hIdle : Idle key) (hStart : ∀ d r, c.rest = d :: r → startsToken d = true) :
    ∃ key', (key' = key ∨ key' = none) ∧ Fresh c key' ∧
      Reaches (inBlock c tokens indent outer key allowed)
        (inBlock c tokens indent outer key' allowed) := by
  cases key with
  | none => exact ⟨none, .inl rfl, fresh_none c, .refl _⟩
  | some k =>
    by_cases hFresh : c.line ≤ k.line ∧ c.index ≤ k.index + 1024
    · refine ⟨some k, .inl rfl, ?_, .refl _⟩
      rintro _ ⟨⟩
      exact hFresh
    · refine ⟨none, .inr rfl, fresh_none c, reaches_of_settle (Nat.le_refl _) fun fuel _ => ?_⟩
      have hStale : (inBlock c tokens indent outer (some k) allowed).isStale k = true := by
        simp [isStale]
        omega
      rw [skipToToken_eq_self (s := inBlock c tokens indent outer (some k) allowed) hStart,
        skipToToken_eq_self (s := inBlock c tokens indent outer none allowed) hStart,
        dropStaleKeys_of_fresh (fresh_none c)]
      simp [dropStaleKeys, hStale, hIdle k rfl]

/-! ### Tokens that are read by themselves -/

theorem atMarker_of_ne {c mark : Char} (h : c ≠ mark) :
    (⟨c :: rest, i, l, k⟩ : Cursor).atMarker mark = false := by
  cases hAt : (⟨c :: rest, i, l, k⟩ : Cursor).atMarker mark with
  | false => rfl
  | true =>
    obtain ⟨q, hText⟩ := Cursor.exists_of_atMarker hAt
    exact absurd (List.cons.inj hText).1 h

/-- A token that may be a key is read from its mark. -/
theorem reaches_node (ch : Char) (skip : Nat)
    (read : Nat → Cursor → Except ReadError (Token × Cursor)) {c : Cursor} {r : List Char}
    {t : Token} {c' : Cursor} (hRest : c.rest = ch :: r) (hStart : startsToken ch = true)
    (hFresh : Fresh c key) (hIdle : allowed = true → Idle key) (hColumn : indent ≤ c.column)
    (hToken : ∀ fuel, (inBlock c tokens indent outer key allowed).readToken fuel ch r =
      (inBlock c tokens indent outer key allowed).node skip (read fuel))
    (hRead : ∀ fuel, r.length + 1 < fuel → read fuel (c.advance skip) = .ok (t, c'))
    (hLess : c'.rest.length ≤ r.length) :
    Reaches (inBlock c tokens indent outer key allowed)
      (inBlock c' (tokens ++ [t]) indent outer (savedKey c tokens.length indent key allowed)
        false) := by
  refine reaches_of_read hRest hStart (dropStaleKeys_of_fresh hFresh) (closeBlocks_eq_self hColumn)
    (fun fuel hFuel => ?_) hLess
  rw [hToken, node, saveKey_inBlock _ _ _ hIdle]
  simp only [bind, Except.bind, hRead fuel hFuel]
  simp [push, pure, Except.pure]

/-- A tag is read up to the space or line end behind it. -/
theorem reaches_tag (tail : List Char) (tokens : List Token) (indent : Int) (outer : List Int)
    (allowed : Bool) {tag : String} (hNonempty : tag ≠ "") (hNul : '\x00' ∉ tag.toList)
    (hKeeps : keepsTag tag = true) (hTail : endsWord tail = true)
    (hFresh : Fresh ⟨tagText tag ++ tail, i, l, k⟩ key) (hIdle : allowed = true → Idle key)
    (hColumn : indent ≤ k) :
    Reaches (inBlock ⟨tagText tag ++ tail, i, l, k⟩ tokens indent outer key allowed)
      (inBlock ⟨tail, i + byteLength (tagText tag), l, k + (tagText tag).length⟩
        (tokens ++ [tagToken tag]) indent outer
        (savedKey ⟨tagText tag ++ tail, i, l, k⟩ tokens.length indent key allowed) false) := by
  obtain ⟨text, hText, hScan⟩ := scanTag_tagText _ hNonempty hNul hKeeps hTail
  rw [hText] at hFresh ⊢
  refine reaches_node (r := text ++ tail) '!' 1 (fun _ => scanTag false) rfl (by decide) hFresh
    hIdle hColumn (fun fuel => ?_) (fun fuel _ => ?_) (by simp)
  · simp [readToken, atMarker_of_ne, inFlow]
  · rw [List.cons_append, Cursor.advance_one, hScan]
    simp [Nat.add_assoc, Nat.add_comm 1]

/-- A text in quotes is read up to its end. -/
theorem reaches_quoted (tail : List Char) (tokens : List Token) (outer : List Int) {quote : Char}
    {write : Char → List Char} {inner text : List Char}
    (hInner : QuotedInner quote write inner text) (hEnds : EndsQuoted quote tail)
    (hFresh : Fresh ⟨quote :: (inner ++ quote :: tail), i, l, k⟩ key)
    (hIdle : allowed = true → Idle key) (hColumn : indent ≤ k) :
    ∃ l' k', l ≤ l' ∧ ((∀ c ∈ text, isBreak c = false) → l' = l ∧ k ≤ k') ∧
      Reaches
        (inBlock ⟨quote :: (inner ++ quote :: tail), i, l, k⟩ tokens indent outer key allowed)
        (inBlock ⟨tail, i + byteLength inner + 2, l', k'⟩
          (tokens ++ [.scalar (String.ofList text) false]) indent outer
          (savedKey ⟨quote :: (inner ++ quote :: tail), i, l, k⟩ tokens.length indent key allowed)
          false) := by
  have hQuote : isSpaceOrBreak quote = false := hEnds.isSpaceOrBreak_eq_false
  have hSize : quote.utf8Size = 1 := by rcases hEnds.isQuote with rfl | rfl <;> rfl
  obtain ⟨l', k', hLine, hSame, hScan⟩ :=
    scanQuoted_inner hInner hEnds (i := i + 1) (l := l) (k := k + 1) (Nat.succ_pos k)
  refine ⟨l', k', hLine, fun h => ⟨(hSame h).1, Nat.le_of_succ_le (hSame h).2⟩, ?_⟩
  refine reaches_node (r := inner ++ quote :: tail) _ 1 (fun fuel c => do
      let p ← scanQuoted quote fuel c
      pure (.scalar (String.ofList p.1) false, p.2)) rfl ?_ hFresh hIdle hColumn (fun fuel => ?_)
    (fun fuel hFuel => ?_) (by simp; omega)
  · rcases hEnds.isQuote with rfl | rfl <;> decide
  · rcases hEnds.isQuote with rfl | rfl <;> simp [readToken, atMarker_of_ne, inFlow, quoted]
  · rw [Cursor.advance_one, hSize]
    simp only [bind, Except.bind, hScan fuel (by omega), hSize]
    rw [Nat.add_right_comm i 1, Nat.add_assoc]
    rfl

/-! ### Plain scalars -/

section Plain

variable {cs : List Char} {c : Char} {r : List Char}

theorem startsToken_of_readsPlain (h : ReadsPlain (c :: r)) : startsToken c = true := by
  have hSpace : isSpaceOrBreak c = false := by
    cases hc : isSpaceOrBreak c with
    | false => rfl
    | true => exact absurd (by rw [h.onlySpaces c (List.mem_cons_self ..) hc]; rfl) h.head
  have hMark : c ≠ '\ufeff' := fun hEq => h.noMark (by rw [hEq]; rfl)
  have hIndicator := h.noIndicator
  simp only [hasIndicator, Bool.or_eq_false_iff] at hIndicator
  have hComment : c ≠ '#' := by
    rintro rfl
    exact absurd hIndicator.1.1.1.1 (by decide)
  simp [startsToken, hSpace, hMark, hComment]

/-- A text without quotes is read as a plain scalar. -/
theorem readToken_plain (h : ReadsPlain (c :: r)) (hTail : EndsPlain tail) (fuel : Nat) :
    (inBlock ⟨c :: (r ++ tail), i, l, k⟩ tokens indent outer key allowed).readToken fuel c
        (r ++ tail) =
      (inBlock ⟨c :: (r ++ tail), i, l, k⟩ tokens indent outer key allowed).plain fuel := by
  have hDash := h.atMarker_eq_false '-' hTail (.inl rfl) i l k
  have hDot := h.atMarker_eq_false '.' hTail (.inr rfl) i l k
  have hStart := startsToken_of_readsPlain h
  simp only [startsToken, Bool.and_eq_true, Bool.not_eq_true'] at hStart
  have hIndicator := h.noIndicator
  simp only [hasIndicator, Bool.or_eq_false_iff] at hIndicator
  obtain ⟨⟨⟨⟨hFirst, hMark⟩, -⟩, -⟩, -⟩ := hIndicator
  have hWord : (c == '?' || c == ':' || c == '-') = true → endsWord (r ++ tail) = false := by
    intro hc
    rw [hc, Bool.true_and] at hMark
    cases r with
    | nil => exact absurd hMark (by decide)
    | cons d q => exact hMark
  have hNot : ∀ d ∈ "#,[]\x7b\x7d&*!|>'\"%@`".toList, c ≠ d := by
    rintro d hd rfl
    rw [List.contains_iff_mem.2 hd] at hFirst
    exact absurd hFirst (by decide)
  have hPlain : startsPlain (inBlock ⟨c :: (r ++ tail), i, l, k⟩ tokens indent outer key allowed) c
      (r ++ tail) = true := by
    cases hc : c == '?' || c == ':' || c == '-' with
    | true =>
      have hEnd := hWord hc
      have hBlank : (r ++ tail).head?.any isSpaceOrTab = false := by
        cases hText : r ++ tail with
        | nil => rfl
        | cons d q =>
          rw [hText] at hEnd
          simp only [endsWord, isSpaceOrBreak, Bool.or_eq_false_iff] at hEnd
          exact hEnd.1
      simp only [Bool.or_eq_true, beq_iff_eq] at hc
      rcases hc with (rfl | rfl) | rfl
      · simp [startsPlain, inFlow, hEnd]
      · simp [startsPlain, inFlow, hEnd]
      · rw [startsPlain, hBlank, Bool.not_false, beq_self_eq_true, Bool.and_self, Bool.or_true,
          Bool.true_or]
    | false =>
      simp only [Bool.or_eq_false_iff, beq_eq_false_iff_ne, ne_eq] at hc
      have hNone : isIndicator c = false := by
        rw [isIndicator, Bool.eq_false_iff]
        intro hMem
        rw [List.contains_iff_mem] at hMem
        have hAll : ∀ d ∈ "-?:,[]\x7b\x7d#&*!|>'\"%@`".toList,
            d ∈ "#,[]\x7b\x7d&*!|>'\"%@`".toList ∨ d = '?' ∨ d = ':' ∨ d = '-' := by decide
        rcases hAll c hMem with h | h | h | h
        · exact hNot c h rfl
        · exact hc.1.1 h
        · exact hc.1.2 h
        · exact hc.2 h
      simp [startsPlain, hStart.1.1, hNone]
  have hItem : ¬ (c = '-' ∧ endsWord (r ++ tail) = true) := by
    rintro ⟨rfl, hEnd⟩
    simp [hWord rfl] at hEnd
  have hKey : ¬ (c = '?' ∧ (false || endsWord (r ++ tail)) = true) := by
    rintro ⟨rfl, hEnd⟩
    simp [hWord rfl] at hEnd
  have hColon : ¬ (c = ':' ∧ (false || endsWord (r ++ tail)) = true) := by
    rintro ⟨rfl, hEnd⟩
    simp [hWord rfl] at hEnd
  rw [readToken, if_neg fun h => hNot '%' (by decide) h.2]
  simp only [List.cons_append] at hDash hDot
  simp only [hDash, hDot, inFlow, List.isEmpty_nil, Bool.not_true, hItem, hKey, hColon,
    hNot '[' (by decide), hNot '\x7b' (by decide), hNot ']' (by decide), hNot '\x7d' (by decide),
    hNot ',' (by decide), hNot '*' (by decide), hNot '&' (by decide), hNot '!' (by decide),
    hNot '|' (by decide), hNot '>' (by decide), hNot '\'' (by decide), hNot '"' (by decide),
    false_and, Bool.false_eq_true, if_false, hPlain, if_true]

/-- A text without quotes in front of a colon is read up to it. -/
theorem reaches_plain_key (h : ReadsPlain cs) (hTail : endsWord tail = true)
    (hFresh : Fresh ⟨cs ++ ':' :: tail, i, l, k⟩ key) (hIdle : allowed = true → Idle key)
    (hColumn : indent ≤ k) :
    Reaches (inBlock ⟨cs ++ ':' :: tail, i, l, k⟩ tokens indent outer key allowed)
      (inBlock ⟨':' :: tail, i + byteLength cs, l, k + cs.length⟩
        (tokens ++ [.scalar (String.ofList cs) true]) indent outer
        (savedKey ⟨cs ++ ':' :: tail, i, l, k⟩ tokens.length indent key allowed) false) := by
  obtain ⟨c, r, rfl⟩ := List.exists_cons_of_ne_nil h.nonempty
  refine reaches_of_read rfl (startsToken_of_readsPlain h) (dropStaleKeys_of_fresh hFresh)
    (closeBlocks_eq_self hColumn) (fun fuel hFuel => ?_) (by simp)
  have hScan := h.scanPlain_key (i := i) (l := l) (k := k) (indent + 1).toNat fuel hTail
    (by omega) (by simpa using hFuel)
  refine (readToken_plain h (.atColon hTail) fuel).trans ?_
  have hSave := saveKey_inBlock (c := ⟨c :: (r ++ ':' :: tail), i, l, k⟩) tokens indent outer hIdle
  rw [plain, hSave]
  simp only [List.cons_append] at hScan
  simp only [bind, Except.bind, inFlow, List.isEmpty_nil, Bool.not_true, hScan]
  simp [push, pure, Except.pure]

/-- A text without quotes at the end of a line is read up to the next token. -/
theorem reaches_plain_line (tokens : List Token) (outer : List Int) {next : List Char} {j : Nat}
    (h : ReadsPlain cs) (hEnds : EndsBlock indent j next) (hLeast : -1 ≤ indent)
    (hFresh : Fresh ⟨cs ++ '\n' :: (spaces j ++ next), i, l, k⟩ key)
    (hIdle : allowed = true → Idle key) (hColumn : indent ≤ k) :
    Reaches (inBlock ⟨cs ++ '\n' :: (spaces j ++ next), i, l, k⟩ tokens indent outer key allowed)
      (inBlock ⟨next, i + byteLength cs + 1 + j, l + 1, j⟩
        (tokens ++ [.scalar (String.ofList cs) true]) indent outer
        (savedKey ⟨cs ++ '\n' :: (spaces j ++ next), i, l, k⟩ tokens.length indent key allowed)
        true) := by
  obtain ⟨c, r, rfl⟩ := List.exists_cons_of_ne_nil h.nonempty
  refine reaches_of_read rfl (startsToken_of_readsPlain h) (dropStaleKeys_of_fresh hFresh)
    (closeBlocks_eq_self hColumn) (fun fuel hFuel => ?_) (by simp; omega)
  have hMargin : j < (indent + 1).toNat ∨ j = 0 ∧
      (next = [] ∨ ∀ i l, (⟨next, i, l, 0⟩ : Cursor).atDocumentMarker = true) := by
    cases hEnds with
    | atEnd => exact .inr ⟨rfl, .inl rfl⟩
    | atMarker q => exact .inr ⟨rfl, .inr fun _ _ => rfl⟩
    | atToken q _ hLess => exact .inl (by omega)
  have hScan := h.scanPlain_line (i := i) (l := l) (k := k) (indent + 1).toNat fuel
    (stopsGap_of_startsToken hEnds.startsToken) hMargin (by omega) (by simpa using hFuel)
  refine (readToken_plain h (.atLineEnd _) fuel).trans ?_
  have hSave := saveKey_inBlock (c := ⟨c :: (r ++ '\n' :: (spaces j ++ next)), i, l, k⟩) tokens
    indent outer hIdle
  rw [plain, hSave]
  simp only [List.cons_append] at hScan
  simp only [bind, Except.bind, inFlow, List.isEmpty_nil, Bool.not_true, hScan]
  simp [push, pure, Except.pure]

end Plain

/-! ### Literal blocks -/

/-- A literal block is read up to the next token. -/
theorem reaches_literal {cs next : List Char} {j m : Nat} (h : ReadsLiteral cs)
    (hNonempty : cs ≠ []) (hLines : EndsLines m j next) (hLess : j < m)
    (hMargin : m = indent.toNat + 2) (hIdle : Idle key) (hColumn : indent ≤ k)
    (hFresh : Fresh ⟨'|' :: (literalHints cs ++ '\n' ::
      (literalLines m true cs ++ (closing cs ++ (spaces j ++ next)))), i, l, k⟩ key) :
    ∃ i' l', Reaches
      (inBlock ⟨'|' :: (literalHints cs ++ '\n' ::
        (literalLines m true cs ++ (closing cs ++ (spaces j ++ next)))), i, l, k⟩ tokens indent
        outer key allowed)
      (inBlock ⟨next, i', l', j⟩ (tokens ++ [.scalar (String.ofList cs) false]) indent outer none
        true) := by
  obtain ⟨i', l', hScan⟩ := scanBlock_literal hLines hLess h hNonempty hMargin
    (i + '|'.utf8Size) l (k + 1)
  refine ⟨i', l', ?_⟩
  refine reaches_of_read rfl (by decide) (dropStaleKeys_of_fresh hFresh)
    (closeBlocks_eq_self hColumn) (fun fuel hFuel => ?_) (by simp; omega)
  have hToken : (inBlock ⟨'|' :: (literalHints cs ++ '\n' ::
      (literalLines m true cs ++ (closing cs ++ (spaces j ++ next)))), i, l, k⟩ tokens indent
        outer key allowed).readToken fuel '|' (literalHints cs ++ '\n' ::
      (literalLines m true cs ++ (closing cs ++ (spaces j ++ next)))) =
      (inBlock ⟨'|' :: (literalHints cs ++ '\n' ::
      (literalLines m true cs ++ (closing cs ++ (spaces j ++ next)))), i, l, k⟩ tokens indent
        outer key allowed).block fuel true := by
    simp [readToken, atMarker_of_ne, inFlow]
  rw [hToken, block, dropKey_inBlock hIdle]
  simp only [bind, Except.bind, Cursor.advance_one,
    hScan fuel (by simp at hFuel ⊢; omega)]
  simp [push, pure, Except.pure]

/-! ### Empty collections -/

theorem idle_savedKey (tokens : List Token) (allowed : Bool) {c : Cursor} (h : Idle key)
    (hColumn : indent < c.column) :
    Idle (savedKey c tokens.length indent key allowed) := by
  cases allowed with
  | false => exact h
  | true =>
    rintro q hq
    obtain rfl := Option.some.inj hq
    simp
    omega

section Outer

variable {c : Cursor} {tokens : Array Token}

theorem dropStaleKeys_outer_of_fresh (h : Fresh c key) :
    (⟨c, tokens, indent, outer, none, [key], allowed⟩ : Scan).dropStaleKeys =
      .ok ⟨c, tokens, indent, outer, none, [key], allowed⟩ := by
  cases key with
  | none => simp [dropStaleKeys]
  | some q =>
    obtain ⟨hLine, hIndex⟩ := h q rfl
    have hStale : (⟨c, tokens, indent, outer, none, [some q], allowed⟩ : Scan).isStale q =
        false := by
      simp [isStale, hLine, hIndex]
    simp [dropStaleKeys, hStale]

theorem exists_dropStaleKeys_outer (tokens : Array Token) (indent : Int) (outer : List Int)
    (allowed : Bool) (h : Idle key) :
    ∃ kept, (kept = key ∨ kept = none) ∧
      (⟨c, tokens, indent, outer, none, [key], allowed⟩ : Scan).dropStaleKeys =
        .ok ⟨c, tokens, indent, outer, none, [kept], allowed⟩ := by
  cases key with
  | none => exact ⟨none, .inl rfl, by simp [dropStaleKeys]⟩
  | some q =>
    cases hStale : (⟨c, tokens, indent, outer, none, [some q], allowed⟩ : Scan).isStale q with
    | true => exact ⟨none, .inr rfl, by simp [dropStaleKeys, hStale, h q rfl]⟩
    | false => exact ⟨some q, .inl rfl, by simp [dropStaleKeys, hStale]⟩

end Outer

/-- Brackets or braces around nothing. -/
inductive EmptyPair : Char → Char → Token → Token → Prop
  | seq : EmptyPair '[' ']' .flowSeqStart .flowSeqEnd
  | map : EmptyPair '\x7b' '\x7d' .flowMapStart .flowMapEnd

namespace EmptyPair

variable {a b : Char} {start stop : Token} (h : EmptyPair a b start stop)
include h

theorem starts : startsToken a = true ∧ startsToken b = true := by
  cases h <;> exact ⟨by decide, by decide⟩

theorem size : a.utf8Size = 1 ∧ b.utf8Size = 1 := by
  cases h <;> exact ⟨rfl, rfl⟩

theorem readToken_open (fuel : Nat) :
    (inBlock ⟨a :: rest, i, l, k⟩ tokens indent outer key allowed).readToken fuel a rest =
      (inBlock ⟨a :: rest, i, l, k⟩ tokens indent outer key allowed).openFlow start := by
  cases h <;> simp [readToken, atMarker_of_ne]

theorem readToken_close (keys : List (Option SimpleKey)) (fuel : Nat) :
    (⟨⟨b :: rest, i, l, k⟩, tokens.toArray, indent, outer, key, keys, allowed⟩ : Scan).readToken
        fuel b rest =
      (⟨⟨b :: rest, i, l, k⟩, tokens.toArray, indent, outer, key, keys, allowed⟩ : Scan).closeFlow
        stop := by
  cases h <;> simp [readToken, atMarker_of_ne]

/-- An empty collection is read with both its marks; `kept` is what is left of the possible key in
front of it. -/
theorem reaches_of_kept {kept : Option SimpleKey}
    (hFresh : Fresh ⟨a :: b :: tail, i, l, k⟩ key) (hIdle : allowed = true → Idle key)
    (hColumn : indent ≤ k)
    (hKept : (⟨⟨b :: tail, i + 1, l, k + 1⟩, (tokens ++ [start]).toArray, indent, outer, none,
        [savedKey ⟨a :: b :: tail, i, l, k⟩ tokens.length indent key allowed], true⟩ :
          Scan).dropStaleKeys =
      .ok ⟨⟨b :: tail, i + 1, l, k + 1⟩, (tokens ++ [start]).toArray, indent, outer, none, [kept],
        true⟩) :
    Reaches (inBlock ⟨a :: b :: tail, i, l, k⟩ tokens indent outer key allowed)
      (inBlock ⟨tail, i + 2, l, k + 2⟩ (tokens ++ [start, stop]) indent outer kept false) := by
  obtain ⟨hStartA, hStartB⟩ := h.starts
  have hOpen : Reaches (inBlock ⟨a :: b :: tail, i, l, k⟩ tokens indent outer key allowed)
      ⟨⟨b :: tail, i + 1, l, k + 1⟩, (tokens ++ [start]).toArray, indent, outer, none,
        [savedKey ⟨a :: b :: tail, i, l, k⟩ tokens.length indent key allowed], true⟩ := by
    refine reaches_of_read rfl hStartA (dropStaleKeys_of_fresh hFresh)
      (closeBlocks_eq_self hColumn) (fun fuel _ => ?_) (by simp)
    rw [h.readToken_open, openFlow, saveKey_inBlock _ _ _ hIdle]
    simp [bind, Except.bind, pure, Except.pure, push, advance, h.size.1]
  refine hOpen.trans ?_
  intro fuel hFuel
  simp only [List.length_cons] at hFuel
  obtain ⟨fuel, rfl⟩ : ∃ m, fuel = m + 1 := ⟨fuel - 1, by omega⟩
  refine ⟨fuel, show tail.length < fuel by omega, ?_⟩
  rw [run, skipToToken_eq_self]
  · simp only [hKept, bind, Except.bind]
    have hClose : (⟨⟨b :: tail, i + 1, l, k + 1⟩, (tokens ++ [start]).toArray, indent, outer, none,
        [kept], true⟩ : Scan).closeBlocks ((k + 1 : Nat) : Int) =
        ⟨⟨b :: tail, i + 1, l, k + 1⟩, (tokens ++ [start]).toArray, indent, outer, none, [kept],
          true⟩ := by
      simp [closeBlocks, inFlow]
    simp only [hClose, h.readToken_close]
    simp [closeFlow, dropKey, bind, Except.bind, pure, Except.pure, push, advance, h.size.2,
      Nat.add_assoc]
  · intro c r hText
    rw [← (List.cons.inj hText).1]
    exact hStartB

end EmptyPair

section Empty

variable {a b : Char} {start stop : Token}

/-- An empty collection is read with both its marks. -/
theorem reaches_empty (h : EmptyPair a b start stop)
    (hFresh : Fresh ⟨a :: b :: tail, i + 1, l, k⟩ key) (hIdle : allowed = true → Idle key)
    (hColumn : indent ≤ k) :
    Reaches (inBlock ⟨a :: b :: tail, i, l, k⟩ tokens indent outer key allowed)
      (inBlock ⟨tail, i + 2, l, k + 2⟩ (tokens ++ [start, stop]) indent outer
        (savedKey ⟨a :: b :: tail, i, l, k⟩ tokens.length indent key allowed) false) := by
  refine h.reaches_of_kept (fun q hq => ?_) hIdle hColumn ?_
  · obtain ⟨hLine, hIndex⟩ := hFresh q hq
    exact ⟨hLine, Nat.le_trans (Nat.le_succ i) hIndex⟩
  · refine dropStaleKeys_outer_of_fresh fun q hq => ?_
    cases allowed with
    | true =>
      obtain rfl := Option.some.inj hq
      exact ⟨Nat.le_refl l, by simp⟩
    | false => exact hFresh q hq

/-- An empty collection is read with both its marks, and a possible key in front of it that need not
be one may be given up. -/
theorem exists_reaches_empty (tokens : List Token) (outer : List Int) (allowed : Bool)
    (h : EmptyPair a b start stop) (hFresh : Fresh ⟨a :: b :: tail, i, l, k⟩ key) (hIdle : Idle key)
    (hColumn : indent < k) :
    ∃ key', (key' = savedKey ⟨a :: b :: tail, i, l, k⟩ tokens.length indent key allowed ∨
        key' = none) ∧
      Reaches (inBlock ⟨a :: b :: tail, i, l, k⟩ tokens indent outer key allowed)
        (inBlock ⟨tail, i + 2, l, k + 2⟩ (tokens ++ [start, stop]) indent outer key' false) := by
  obtain ⟨kept, hKept, hDrop⟩ := exists_dropStaleKeys_outer (c := ⟨b :: tail, i + 1, l, k + 1⟩)
    (tokens ++ [start]).toArray indent outer true (idle_savedKey (c := ⟨a :: b :: tail, i, l, k⟩)
      tokens allowed hIdle hColumn)
  exact ⟨kept, hKept, h.reaches_of_kept hFresh (fun _ => hIdle) (Int.le_of_lt hColumn) hDrop⟩

end Empty

/-! ### Marks of blocks -/

theorem insertIdx_length_append {α : Type} (before behind : List α) (a : α) :
    (before ++ behind).insertIdx before.length a = before ++ a :: behind := by
  induction before with
  | nil => rfl
  | cons b before ih => rw [List.cons_append, List.length_cons, List.insertIdx_succ_cons, ih]; rfl

theorem insertAt_inBlock {c : Cursor} (before behind : List Token) (t : Token) :
    (inBlock c (before ++ behind) indent outer key allowed).insertAt before.length t =
      inBlock c (before ++ t :: behind) indent outer key allowed := by
  rw [insertAt, List.insertIdxIfInBounds_toArray, insertIdx_length_append]

/-- A block opens right of the one around it, with its token in front of what belongs to it. -/
theorem openBlock_inBlock (outer : List Int) (key : Option SimpleKey) (allowed : Bool) {c : Cursor}
    {column : Nat} (h : indent < column) (before behind : List Token) (t : Token) :
    (inBlock c (before ++ behind) indent outer key allowed).openBlock column before.length t =
      inBlock c (before ++ t :: behind) column (indent :: outer) key allowed := by
  have hOpen : (!(inBlock c (before ++ behind) indent outer key allowed).inFlow &&
      decide (indent < (column : Int))) = true := by simp [inFlow, h]
  rw [openBlock, if_pos (by simpa using hOpen), insertAt_inBlock]

/-- A block that stands at the indentation is open. -/
theorem openBlock_eq_self (tokens : List Token) (indent : Int) (outer : List Int)
    (key : Option SimpleKey) (allowed : Bool) {c : Cursor} {column : Nat} (h : indent = column)
    (position : Nat) (t : Token) :
    (inBlock c tokens indent outer key allowed).openBlock column position t =
      inBlock c tokens indent outer key allowed := by
  have hOpen : ¬ indent < (column : Int) := by omega
  simp [openBlock, hOpen]

theorem atMarker_of_endsWord (mark : Char) {c : Char} (h : endsWord rest = true)
    (hBreak : isSpaceOrBreak mark = false) :
    (⟨c :: rest, i, l, k⟩ : Cursor).atMarker mark = false := by
  cases hAt : (⟨c :: rest, i, l, k⟩ : Cursor).atMarker mark with
  | false => rfl
  | true =>
    obtain ⟨q, hText⟩ := Cursor.exists_of_atMarker hAt
    rw [(List.cons.inj hText).2, endsWord, hBreak] at h
    exact absurd h (by decide)

/-- The dash of an item, or the question mark of a key that takes lines of its own. -/
inductive BlockMark : Char → Token → Token → Prop
  | item : BlockMark '-' .blockSeqStart .item
  | key : BlockMark '?' .blockMapStart .key

section Marks

variable {mark : Char} {start t : Token} {m : Nat}

theorem BlockMark.starts (h : BlockMark mark start t) : startsToken mark = true := by
  cases h <;> decide

/-- A mark opens a block or goes on with one. -/
theorem BlockMark.reaches_of_open {tokens' : List Token} {indent' : Int} {outer' : List Int}
    (h : BlockMark mark start t) (hRest : endsWord rest = true) (hColumn : indent ≤ m)
    (hOpen : (inBlock ⟨mark :: rest, i, l, m⟩ tokens indent outer none true).openBlock m
      tokens.length start = inBlock ⟨mark :: rest, i, l, m⟩ tokens' indent' outer' none true) :
    Reaches (inBlock ⟨mark :: rest, i, l, m⟩ tokens indent outer none true)
      (inBlock ⟨rest, i + 1, l, m + 1⟩ (tokens' ++ [t]) indent' outer' none true) := by
  refine reaches_of_read rfl h.starts (dropStaleKeys_of_fresh (fresh_none _))
    (closeBlocks_eq_self hColumn) (fun fuel _ => ?_) (Nat.le_refl _)
  have hDash := atMarker_of_endsWord (c := mark) (i := i) (l := l) (k := m) '-' hRest rfl
  have hDot := atMarker_of_endsWord (c := mark) (i := i) (l := l) (k := m) '.' hRest rfl
  cases h with
  | item =>
    have hItem : (inBlock ⟨'-' :: rest, i, l, m⟩ tokens indent outer none true).readToken fuel '-'
        rest = (inBlock ⟨'-' :: rest, i, l, m⟩ tokens indent outer none true).blockItem := by
      simp [readToken, hDash, hDot, hRest]
    rw [hItem, blockItem, openAtIndicator]
    simp [inFlow, hOpen, dropKey, bind, Except.bind, pure, Except.pure, push, advance]
    rfl
  | key =>
    have hKey : (inBlock ⟨'?' :: rest, i, l, m⟩ tokens indent outer none true).readToken fuel '?'
        rest = (inBlock ⟨'?' :: rest, i, l, m⟩ tokens indent outer none true).explicitKey := by
      simp [readToken, hDash, hDot, hRest]
    rw [hKey, explicitKey, openAtIndicator]
    simp [inFlow, hOpen, dropKey, bind, Except.bind, pure, Except.pure, push, advance]
    rfl

/-- A mark right of the block around it opens one. -/
theorem BlockMark.reaches_first (tokens : List Token) (outer : List Int)
    (h : BlockMark mark start t) (hRest : endsWord rest = true) (hOpen : indent < m) :
    Reaches (inBlock ⟨mark :: rest, i, l, m⟩ tokens indent outer none true)
      (inBlock ⟨rest, i + 1, l, m + 1⟩ (tokens ++ [start, t]) m (indent :: outer) none true) := by
  have hBlock := openBlock_inBlock (c := ⟨mark :: rest, i, l, m⟩) outer none true hOpen tokens []
    start
  rw [List.append_nil] at hBlock
  have hReaches := h.reaches_of_open hRest (Int.le_of_lt hOpen) hBlock
  rwa [List.append_assoc] at hReaches

/-- A mark at the indentation of its block goes on with it. -/
theorem BlockMark.reaches_next (h : BlockMark mark start t) (hRest : endsWord rest = true) :
    Reaches (inBlock ⟨mark :: rest, i, l, m⟩ tokens m outer none true)
      (inBlock ⟨rest, i + 1, l, m + 1⟩ (tokens ++ [t]) m outer none true) :=
  h.reaches_of_open hRest (Int.le_refl _) (openBlock_eq_self _ _ _ _ _ rfl ..)

/-- The colon behind a key that took lines of its own. -/
theorem reaches_colon (tokens : List Token) (outer : List Int) (hRest : endsWord rest = true) :
    Reaches (inBlock ⟨':' :: rest, i, l, m⟩ tokens m outer none true)
      (inBlock ⟨rest, i + 1, l, m + 1⟩ (tokens ++ [.value]) m outer none true) := by
  refine reaches_of_read rfl (by decide) (dropStaleKeys_of_fresh (fresh_none _))
    (closeBlocks_eq_self (Int.le_refl _)) (fun fuel _ => ?_) (Nat.le_refl _)
  have hColon : (inBlock ⟨':' :: rest, i, l, m⟩ tokens m outer none true).readToken fuel ':' rest =
      (inBlock ⟨':' :: rest, i, l, m⟩ tokens m outer none true).colon := by
    simp [readToken, atMarker_of_ne, hRest]
  have hOpen := openBlock_eq_self (c := ⟨':' :: rest, i, l, m⟩) tokens m outer none true rfl
    tokens.length .blockMapStart
  rw [hColon, colon]
  simp [openAtIndicator, inFlow, hOpen, bind, Except.bind, pure, Except.pure, push, advance]
  rfl

/-- The colon behind a key on its line puts the mark of a key in front of it, and opens the mapping
when it is the first. -/
theorem reaches_colon_of_key {before behind tokens' : List Token} {indent' : Int}
    {outer' : List Int} {q : SimpleKey} (hRest : endsWord rest = true) (hColumn : indent ≤ k)
    (hFresh : Fresh ⟨':' :: rest, i, l, k⟩ (some q)) (hPosition : q.position = before.length)
    (hOpen : (inBlock ⟨':' :: rest, i, l, k⟩ (before ++ .key :: behind) indent outer (some q)
      false).openBlock q.column before.length .blockMapStart =
        inBlock ⟨':' :: rest, i, l, k⟩ tokens' indent' outer' (some q) false) :
    Reaches (inBlock ⟨':' :: rest, i, l, k⟩ (before ++ behind) indent outer (some q) false)
      (inBlock ⟨rest, i + 1, l, k + 1⟩ (tokens' ++ [.value]) indent' outer' none false) := by
  refine reaches_of_read rfl (by decide) (dropStaleKeys_of_fresh hFresh)
    (closeBlocks_eq_self hColumn) (fun fuel _ => ?_) (Nat.le_refl _)
  have hColon : (inBlock ⟨':' :: rest, i, l, k⟩ (before ++ behind) indent outer (some q)
      false).readToken fuel ':' rest = (inBlock ⟨':' :: rest, i, l, k⟩ (before ++ behind) indent
        outer (some q) false).colon := by
    simp [readToken, atMarker_of_ne, hRest]
  rw [hColon, colon]
  simp only [hPosition, insertAt_inBlock, hOpen]
  simp [bind, Except.bind, pure, Except.pure, push, advance]
  rfl

end Marks

/-! ### Documents -/

/-- The marker of a document closes all blocks. -/
theorem reaches_marker (rest : List Char) (tokens : List Token) (allowed : Bool)
    {key : Option SimpleKey} (hIdle : Idle key)
    (hFresh : Fresh ⟨'-' :: '-' :: '-' :: '\n' :: rest, i, l, 0⟩ key) :
    Reaches
      (inBlock ⟨'-' :: '-' :: '-' :: '\n' :: rest, i, l, 0⟩ tokens (-1) [] key allowed)
      (inBlock ⟨'\n' :: rest, i + 3, l, 3⟩ (tokens ++ [.documentStart]) (-1) [] none false) := by
  refine reaches_of_read rfl (by decide) (dropStaleKeys_of_fresh hFresh)
    (closeBlocks_eq_self (by simp)) (fun fuel _ => ?_) (by simp)
  rw [readToken_marker rfl, closeAll, closeBlocks_eq_self (Int.le_refl (-1)),
    dropKey_inBlock hIdle]
  simp [bind, Except.bind, pure, Except.pure, push, advance, Cursor.advance]
  rfl

/-- A run ends at the end of the text. -/
theorem run_end (hIdle : Idle key) (hFresh : Fresh ⟨[], i, l, k⟩ key) (fuel : Nat) :
    (inBlock ⟨[], i, l, k⟩ tokens (-1) [] key allowed).run (fuel + 1) = .ok tokens := by
  have hSkip := skipToToken_eq_self (s := inBlock ⟨[], i, l, k⟩ tokens (-1) [] key allowed)
    (fun c r h => by cases h) (fuel + 1)
  rw [run]
  simp only [hSkip, dropStaleKeys_of_fresh hFresh, bind, Except.bind]
  rw [closeBlocks_eq_self (by simp), closeBlocks_eq_self (Int.le_refl _), dropKey_inBlock hIdle]
  rfl

end KubeCompose.Yaml.Scan
