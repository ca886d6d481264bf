import KubeCompose.Yaml.Token.Stream

/-!
# Runs of the scanner

A scan of a text reads one token after the other. `Reaches s t` says that a run from `s` goes on as
one from `t` does, whatever fuel it has left, so a run is followed in steps: white space and line
ends in front of a token, blocks that the column of a token closes, and the token itself.
-/

namespace KubeCompose.Yaml

/-- What is said of the characters of a text is decided by a look at each of them, and not by one at
every character there is. -/
instance (priority := high) decidableForallMemChar (cs : List Char) (p : Char → Prop)
    [DecidablePred p] : Decidable (∀ c ∈ cs, p c) :=
  List.decidableBAll p cs

/-! ### Places in a text -/

theorem byteLength_foldl (cs : List Char) (n : Nat) :
    cs.foldl (fun n c => n + c.utf8Size) n = n + byteLength cs := by
  induction cs generalizing n with
  | nil => rfl
  | cons c r ih =>
    rw [byteLength, List.foldl_cons, List.foldl_cons, ih, ih]
    omega

@[simp] theorem byteLength_nil : byteLength [] = 0 := rfl

@[simp] theorem byteLength_cons (c : Char) (r : List Char) :
    byteLength (c :: r) = c.utf8Size + byteLength r := by
  rw [byteLength, List.foldl_cons, byteLength_foldl]
  omega

@[simp] theorem byteLength_append (cs ds : List Char) :
    byteLength (cs ++ ds) = byteLength cs + byteLength ds := by
  rw [byteLength, List.foldl_append, byteLength_foldl]
  rfl

@[simp] theorem byteLength_replicate (n : Nat) : byteLength (List.replicate n ' ') = n := by
  induction n with
  | zero => rfl
  | succ n ih =>
    rw [List.replicate_succ, byteLength_cons, ih]
    exact Nat.add_comm ..

namespace Cursor

@[simp] theorem advance_zero (c : Cursor) : c.advance 0 = c := rfl

/-- What stands in front is passed. -/
theorem advance_append (cs rest : List Char) (i l k : Nat) :
    advance ⟨cs ++ rest, i, l, k⟩ cs.length = ⟨rest, i + byteLength cs, l, k + cs.length⟩ := by
  simp [advance]

@[simp] theorem advance_one (ch : Char) (rest : List Char) (i l k : Nat) :
    advance ⟨ch :: rest, i, l, k⟩ 1 = ⟨rest, i + ch.utf8Size, l, k + 1⟩ := by
  simp [advance]

/-- The end of a line is passed. -/
theorem nextLine_cons {b : Char} (hBreak : isBreak b = true) (hReturn : b ≠ '\r')
    (rest : List Char) (i l k : Nat) :
    nextLine ⟨b :: rest, i, l, k⟩ = ⟨rest, i + b.utf8Size, l + 1, 0⟩ := by
  unfold nextLine
  split
  · rename_i r h
    injection h with h
    exact absurd h hReturn
  · rename_i b' r _ h
    injection h with hb hr
    subst hb hr
    simp [hBreak]
  · rename_i h
    cases h

end Cursor

/-! ### Where a token starts -/

/-- A character at which a token starts: no white space, no comment and no byte order mark. -/
def startsToken (c : Char) : Bool := !isSpaceOrBreak c && c != '#' && c != '\ufeff'

theorem startsToken_iff {c : Char} :
    startsToken c = true ↔ c ≠ ' ' ∧ c ≠ '\t' ∧ isBreak c = false ∧ c ≠ '#' ∧ c ≠ '\ufeff' := by
  simp [startsToken, isSpaceOrBreak, isSpaceOrTab, and_assoc]

namespace Scan

/-- A scan outside of brackets and braces. -/
abbrev inBlock (c : Cursor) (tokens : List Token) (indent : Int) (outer : List Int)
    (key : Option SimpleKey) (keyAllowed : Bool) : Scan :=
  ⟨c, tokens.toArray, indent, outer, key, [], keyAllowed⟩

/-- A run from `s` goes on as one from `t`. -/
def Reaches (s t : Scan) : Prop :=
  ∀ fuel, s.cursor.rest.length < fuel →
    ∃ left, t.cursor.rest.length < left ∧ s.run fuel = t.run left

theorem Reaches.refl (s : Scan) : Reaches s s := fun fuel h => ⟨fuel, h, rfl⟩

theorem Reaches.trans {s t u : Scan} (h : Reaches s t) (h' : Reaches t u) : Reaches s u := by
  intro fuel hFuel
  obtain ⟨left, hLeft, hRun⟩ := h fuel hFuel
  obtain ⟨rest, hRest, hRun'⟩ := h' left hLeft
  exact ⟨rest, hRest, hRun.trans hRun'⟩

/-! ### White space and line ends -/

section Skip

variable {c : Char} {rest : List Char} {i l k : Nat} {tokens : Array Token} {indent : Int}
  {outer : List Int} {key : Option SimpleKey} {keys : List (Option SimpleKey)} {allowed : Bool}

/-- A scan at the start of a token or at the end of the text has nothing to skip. -/
theorem skipToToken_eq_self {s : Scan} (h : ∀ c r, s.cursor.rest = c :: r → startsToken c = true)
    (fuel : Nat) : s.skipToToken fuel = s := by
  cases fuel with
  | zero => rfl
  | succ fuel =>
    obtain ⟨⟨rest, i, l, k⟩, tokens, indent, outer, key, keys, allowed⟩ := s
    cases rest with
    | nil => simp [skipToToken, Cursor.peek?, Cursor.advanceWhile, Cursor.skipComment]
    | cons c r =>
      obtain ⟨hSpace, hTab, hBreak, hComment, hMark⟩ := startsToken_iff.1 (h c r rfl)
      simp [skipToToken, Cursor.peek?, Cursor.advanceWhile, Cursor.skipComment, hSpace, hTab,
        hBreak, hComment, hMark]

/-- Spaces in front of a token are skipped. -/
theorem skipToToken_spaces (tokens : Array Token) (indent : Int) (outer : List Int)
    (key : Option SimpleKey) (keys : List (Option SimpleKey)) (allowed : Bool) (n : Nat)
    (h : ∀ c r, rest = c :: r → startsToken c = true) (fuel : Nat) :
    skipToToken ⟨⟨List.replicate n ' ' ++ rest, i, l, k⟩, tokens, indent, outer, key, keys,
        allowed⟩ (fuel + 1) =
      ⟨⟨rest, i + n, l, k + n⟩, tokens, indent, outer, key, keys, allowed⟩ := by
  have hTake : ∀ tabs : Bool, (List.replicate n ' ' ++ rest).takeWhile
      (fun ch => ch == ' ' || (tabs && ch == '\t')) = List.replicate n ' ' := by
    intro tabs
    rw [List.takeWhile_append_of_pos (by simp)]
    cases rest with
    | nil => simp
    | cons c r =>
      obtain ⟨hSpace, hTab, -⟩ := startsToken_iff.1 (h c r rfl)
      simp [hSpace, hTab]
  have hPeek : ¬ (k = 0 ∧ (List.replicate n ' ' ++ rest).head? = some '\ufeff') := by
    rintro ⟨-, hHead⟩
    cases n with
    | zero =>
      cases rest with
      | nil => simp at hHead
      | cons c r =>
        have := (startsToken_iff.1 (h c r rfl)).2.2.2.2
        simp_all
    | succ n => simp [List.replicate_succ] at hHead
  rw [skipToToken]
  simp only [Cursor.peek?, hPeek, if_false, Cursor.advanceWhile, hTake]
  have hAdvance := Cursor.advance_append (List.replicate n ' ') rest i l k
  rw [byteLength_replicate, List.length_replicate] at hAdvance
  rw [List.length_replicate, hAdvance]
  cases rest with
  | nil => simp [Cursor.skipComment, Cursor.peek?]
  | cons c r =>
    obtain ⟨-, -, hBreak, hComment, -⟩ := startsToken_iff.1 (h c r rfl)
    simp [Cursor.skipComment, Cursor.peek?, hComment, hBreak]

/-- The end of a line is skipped, and a key may stand behind it. -/
theorem skipToToken_newline (fuel : Nat) :
    skipToToken ⟨⟨'\n' :: rest, i, l, k⟩, tokens, indent, outer, key, [], allowed⟩ (fuel + 1) =
      skipToToken ⟨⟨rest, i + 1, l + 1, 0⟩, tokens, indent, outer, key, [], true⟩ fuel := by
  have hBreak : isBreak '\n' = true := rfl
  have hNext := Cursor.nextLine_cons hBreak (by decide) rest i l k
  rw [skipToToken]
  simp [Cursor.peek?, Cursor.advanceWhile, Cursor.skipComment, hBreak, inFlow, hNext]
  rfl

end Skip

/-! ### Steps -/

/-- Two scans go on as one when they are alike behind what they skip. -/
theorem reaches_of_settle {s t : Scan} (hLess : t.cursor.rest.length ≤ s.cursor.rest.length)
    (h : ∀ fuel, s.cursor.rest.length ≤ fuel →
      (s.skipToToken (fuel + 1)).dropStaleKeys = (t.skipToToken (fuel + 1)).dropStaleKeys) :
    Reaches s t := by
  intro fuel hFuel
  obtain ⟨fuel, rfl⟩ : ∃ n, fuel = n + 1 := ⟨fuel - 1, by omega⟩
  exact ⟨fuel + 1, by omega, by rw [run, run, h fuel (by omega)]⟩

/-- A token is read where a scan stands at its start, holds no key that has become impossible, and
is in no block that the column of the token closes. -/
theorem reaches_of_read {s t : Scan} {c : Char} {r : List Char} (hRest : s.cursor.rest = c :: r)
    (hStart : startsToken c = true) (hKeys : s.dropStaleKeys = .ok s)
    (hClose : s.closeBlocks s.cursor.column = s)
    (hRead : ∀ fuel, r.length + 1 < fuel → s.readToken fuel c r = .ok t)
    (hLess : t.cursor.rest.length ≤ r.length) : Reaches s t := by
  intro fuel hFuel
  rw [hRest, List.length_cons] at hFuel
  obtain ⟨fuel, rfl⟩ : ∃ n, fuel = n + 1 := ⟨fuel - 1, by omega⟩
  have hSkip : s.skipToToken (fuel + 1) = s := by
    refine skipToToken_eq_self (fun d q h => ?_) _
    rw [hRest] at h
    injection h with h
    exact h ▸ hStart
  refine ⟨fuel, by omega, ?_⟩
  rw [run]
  simp only [hSkip, hKeys, bind, Except.bind, hClose, hRest, hRead (fuel + 1) hFuel]

/-! ### Keys that have become impossible -/

section Keys

variable {c : Cursor} {tokens : List Token} {indent : Int} {outer : List Int}
  {key : Option SimpleKey} {allowed : Bool}

/-- A key that may still be one: it stands on this line, not far back. -/
def Fresh (c : Cursor) (key : Option SimpleKey) : Prop :=
  ∀ k, key = some k → c.line ≤ k.line ∧ c.index ≤ k.index + 1024

theorem fresh_none (c : Cursor) : Fresh c none := by simp [Fresh]

theorem dropStaleKeys_of_fresh (h : Fresh c key) :
    (inBlock c tokens indent outer key allowed).dropStaleKeys =
      .ok (inBlock c tokens indent outer key allowed) := by
  cases key with
  | none => simp [dropStaleKeys]
  | some k =>
    obtain ⟨hLine, hIndex⟩ := h k rfl
    have hStale : (inBlock c tokens indent outer (some k) allowed).isStale k = false := by
      simp [isStale, hLine, hIndex]
    simp [dropStaleKeys, hStale]

/-- A key that need not be one. -/
def Idle (key : Option SimpleKey) : Prop := ∀ k, key = some k → k.required = false

theorem idle_none : Idle none := by simp [Idle]

/-- On a later line a key is given up. -/
theorem dropStaleKeys_of_later (hIdle : Idle key) (hLine : ∀ k, key = some k → k.line < c.line) :
    (inBlock c tokens indent outer key allowed).dropStaleKeys =
      .ok (inBlock c tokens indent outer none allowed) := by
  cases key with
  | none => simp [dropStaleKeys]
  | some k =>
    have hStale : (inBlock c tokens indent outer (some k) allowed).isStale k = true := by
      simp [isStale, hLine k rfl]
    simp [dropStaleKeys, hStale, hIdle k rfl]

end Keys

section Space

variable {rest : List Char} {i l k : Nat} {tokens : List Token} {indent : Int} {outer : List Int}
  {key : Option SimpleKey} {allowed : Bool}

/-- A space in front of a token is passed. -/
theorem reaches_space (tokens : List Token) (indent : Int) (outer : List Int)
    (key : Option SimpleKey) (allowed : Bool) (h : ∀ c r, rest = c :: r → startsToken c = true) :
    Reaches (inBlock ⟨' ' :: rest, i, l, k⟩ tokens indent outer key allowed)
      (inBlock ⟨rest, i + 1, l, k + 1⟩ tokens indent outer key allowed) := by
  refine reaches_of_settle (by simp) fun fuel _ => ?_
  have hSpace := skipToToken_spaces (i := i) (l := l) (k := k) tokens.toArray indent outer key []
    allowed 1 h fuel
  rw [skipToToken_eq_self (s := inBlock ⟨rest, i + 1, l, k + 1⟩ tokens indent outer key allowed) h]
  exact congrArg dropStaleKeys hSpace

/-- The end of a line and the spaces in front of the next token are passed. A key may stand there,
and what stood on the line before is none. -/
theorem reaches_newline (rest : List Char) (tokens : List Token) (indent : Int) (outer : List Int)
    (allowed : Bool) (n : Nat) (h : ∀ c r, rest = c :: r → startsToken c = true) (hIdle : Idle key)
    (hLine : ∀ k, key = some k → k.line ≤ l) :
    Reaches (inBlock ⟨'\n' :: (List.replicate n ' ' ++ rest), i, l, k⟩ tokens indent outer key
        allowed)
      (inBlock ⟨rest, i + 1 + n, l + 1, n⟩ tokens indent outer none true) := by
  refine reaches_of_settle (by simp; omega) fun fuel hFuel => ?_
  obtain ⟨fuel, rfl⟩ : ∃ m, fuel = m + 1 := ⟨fuel - 1, by simp at hFuel; omega⟩
  have hSpaces := skipToToken_spaces (i := i + 1) (l := l + 1) (k := 0) tokens.toArray indent outer
    key [] true n h fuel
  rw [Nat.zero_add] at hSpaces
  rw [skipToToken_newline, hSpaces,
    skipToToken_eq_self (s := inBlock ⟨rest, i + 1 + n, l + 1, n⟩ tokens indent outer none true) h,
    dropStaleKeys_of_later hIdle fun k hk => Nat.lt_succ_of_le (hLine k hk),
    dropStaleKeys_of_fresh (fresh_none _)]

end Space

/-! ### Blocks that end -/

section Close

variable {c : Cursor} {tokens : List Token} {indent i : Int} {outer : List Int}
  {key : Option SimpleKey} {allowed : Bool}

/-- No block ends at a column that reaches its indentation. -/
theorem closeBlocks_eq_self {column : Int} (h : indent ≤ column) :
    (inBlock c tokens indent outer key allowed).closeBlocks column =
      inBlock c tokens indent outer key allowed := by
  have hNot : ¬ column < indent := by omega
  cases outer <;> simp [closeBlocks, inFlow, closeBlocks.close, hNot]

/-- A column left of a block ends it. -/
theorem closeBlocks_cons (tokens : List Token) (outer : List Int) (key : Option SimpleKey)
    (allowed : Bool) {column : Int} (h : column < indent) :
    (inBlock c tokens indent (i :: outer) key allowed).closeBlocks column =
      (inBlock c (tokens ++ [.blockEnd]) i outer key allowed).closeBlocks column := by
  simp [closeBlocks, inFlow, closeBlocks.close, h]

/-- Blocks that end at a column have ended at one further left. -/
theorem closeBlocks_closeBlocks {s : Scan} {a b : Int} (hFlow : s.outerKeys = []) (h : a ≤ b) :
    (s.closeBlocks b).closeBlocks a = s.closeBlocks a := by
  obtain ⟨c, tokens, indent, outer, key, keys, allowed⟩ := s
  subst hFlow
  have hTokens : tokens = tokens.toList.toArray := by simp
  rw [hTokens]
  generalize tokens.toList = ts
  induction outer generalizing indent ts with
  | nil => simp [closeBlocks, inFlow, closeBlocks.close]
  | cons i outer ih =>
    by_cases hb : b < indent
    · have ha : a < indent := by omega
      have hStep := closeBlocks_cons (c := c) (i := i) ts outer key allowed hb
      have hStep' := closeBlocks_cons (c := c) (i := i) ts outer key allowed ha
      rw [hStep, hStep']
      exact ih ..
    · rw [closeBlocks_eq_self (by omega)]

end Close

@[simp] theorem cursor_closeBlocks (s : Scan) (column : Int) :
    (s.closeBlocks column).cursor = s.cursor := by
  unfold closeBlocks
  split <;> rfl

/-- What follows a block whose parent is indented by `n`: the end of the text, the marker of the
next document, or a token at a column `k` not right of the parent's. -/
inductive EndsBlock (n : Int) : Nat → List Char → Prop
  | atEnd : EndsBlock n 0 []
  | atMarker (r : List Char) : EndsBlock n 0 ('-' :: '-' :: '-' :: '\n' :: r)
  | atToken {k : Nat} {c : Char} (r : List Char) :
      startsToken c = true → (k : Int) ≤ n → EndsBlock n k (c :: r)

section Ends

variable {n m : Int} {k i l : Nat} {next : List Char}

theorem EndsBlock.startsToken (h : EndsBlock n k next) :
    ∀ c r, next = c :: r → startsToken c = true := by
  rintro c r rfl
  cases h with
  | atMarker => rfl
  | atToken _ hStart => exact hStart

theorem EndsBlock.mono (h : EndsBlock n k next) (hLess : n ≤ m) : EndsBlock m k next := by
  cases h with
  | atEnd => exact .atEnd
  | atMarker r => exact .atMarker r
  | atToken r hStart hColumn => exact .atToken r hStart (by omega)

/-- The marker of a document closes all blocks. -/
theorem readToken_marker {s : Scan} (h : s.cursor.atMarker '-' = true) (fuel : Nat)
    (r : List Char) : s.readToken fuel '-' r =
      (do pure (((← s.closeAll).push .documentStart).advance 3)) := by
  simp [readToken, h]

/-- What follows a block ends it. -/
theorem reaches_close (tokens : List Token) (outer : List Int) (allowed : Bool)
    (h : EndsBlock n k next) (hLess : n < m) (hLeast : -1 ≤ n) :
    Reaches (inBlock ⟨next, i, l, k⟩ tokens m (n :: outer) none allowed)
      (inBlock ⟨next, i, l, k⟩ (tokens ++ [.blockEnd]) n outer none allowed) := by
  intro fuel hFuel
  obtain ⟨fuel, rfl⟩ : ∃ f, fuel = f + 1 := ⟨fuel - 1, by omega⟩
  refine ⟨fuel + 1, hFuel, ?_⟩
  generalize hs : inBlock ⟨next, i, l, k⟩ tokens m (n :: outer) none allowed = s
  generalize ht : inBlock ⟨next, i, l, k⟩ (tokens ++ [.blockEnd]) n outer none allowed = t
  have hClose : ∀ {column : Int}, column < m → s.closeBlocks column = t.closeBlocks column :=
    fun hColumn => by rw [← hs, ← ht]; exact closeBlocks_cons _ _ _ _ hColumn
  have hSkip : s.skipToToken (fuel + 1) = s ∧ t.skipToToken (fuel + 1) = t := by
    rw [← hs, ← ht]
    exact ⟨skipToToken_eq_self h.startsToken _, skipToToken_eq_self h.startsToken _⟩
  have hKeys : s.dropStaleKeys = .ok s ∧ t.dropStaleKeys = .ok t := by
    rw [← hs, ← ht]
    exact ⟨dropStaleKeys_of_fresh (fresh_none _), dropStaleKeys_of_fresh (fresh_none _)⟩
  have hCursor : s.cursor = ⟨next, i, l, k⟩ ∧ t.cursor = ⟨next, i, l, k⟩ := by
    rw [← hs, ← ht]
    exact ⟨rfl, rfl⟩
  have hFlow : s.outerKeys = [] ∧ t.outerKeys = [] := by
    rw [← hs, ← ht]
    exact ⟨rfl, rfl⟩
  -- What ends every block ends those right of it first.
  have hAll : (s.closeBlocks (0 : Nat)).closeBlocks (-1) =
      (t.closeBlocks (0 : Nat)).closeBlocks (-1) := by
    rw [closeBlocks_closeBlocks hFlow.1 (by omega), closeBlocks_closeBlocks hFlow.2 (by omega),
      hClose (by omega)]
  rw [run, run]
  simp only [hSkip, hKeys, bind, Except.bind, cursor_closeBlocks, hCursor]
  cases h with
  | atEnd => simp only [hAll]
  | atMarker r =>
    have hMarker : ∀ u : Scan, u.cursor = ⟨'-' :: '-' :: '-' :: '\n' :: r, i, l, 0⟩ →
        (u.closeBlocks (0 : Nat)).cursor.atMarker '-' = true := by
      intro u hu
      rw [cursor_closeBlocks, hu]
      rfl
    simp only [readToken_marker (hMarker s hCursor.1), readToken_marker (hMarker t hCursor.2),
      closeAll, hAll]
  | atToken r hStart hColumn => simp only [hClose (by omega : (k : Int) < m)]

end Ends

end Scan

end KubeCompose.Yaml
