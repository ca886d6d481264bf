import KubeCompose.Proofs.RoundTrip.Scan
import KubeCompose.Yaml.Render

/-!
# Plain scalars that are read back

A plain scalar is read word by word, with the gaps between the words. A text without breaks and
indicators, with no space at its ends, is read up to the colon or the line end behind it.
-/

namespace KubeCompose.Yaml

/-! ### Words and gaps -/

/-- A text is a word, a gap of characters that satisfy `p`, and the rest from the next word on. -/
theorem exists_word_gap (p : Char → Bool) {cs : List Char} (hNonempty : cs ≠ []) :
    ∃ word gap rest, cs = word ++ (gap ++ rest) ∧ (∀ c ∈ word, p c = false) ∧
      (∀ c ∈ gap, p c = true) ∧ (∀ c r, rest = c :: r → p c = false) ∧ (gap = [] → rest = []) ∧
      rest.length < cs.length := by
  refine ⟨cs.takeWhile (!p ·), (cs.dropWhile (!p ·)).takeWhile p,
    (cs.dropWhile (!p ·)).dropWhile p, by simp, ?_, ?_, ?_, ?_, ?_⟩
  · intro c hc
    simpa using List.all_eq_true.1 List.all_takeWhile c hc
  · intro c hc
    exact List.all_eq_true.1 List.all_takeWhile c hc
  · intro c r h
    have := List.head?_dropWhile_not p (cs.dropWhile (!p ·))
    simpa [h] using this
  · intro hGap
    have hHead := List.head?_dropWhile_not (!p ·) cs
    cases hRest : cs.dropWhile (!p ·) with
    | nil => rfl
    | cons c r =>
      rw [hRest] at hGap hHead
      simp at hHead
      simp [hHead] at hGap
  · cases cs with
    | nil => exact absurd rfl hNonempty
    | cons c r =>
      have hLess : ∀ (q : Char → Bool) (ds : List Char), (ds.dropWhile q).length ≤ ds.length :=
        fun q ds => (List.dropWhile_suffix q).length_le
      cases hc : p c
      · simp only [List.dropWhile_cons, hc, Bool.not_false, if_true, List.length_cons]
        exact Nat.lt_succ_of_le (Nat.le_trans (hLess ..) (hLess ..))
      · simp only [List.dropWhile_cons, hc, Bool.not_true, Bool.false_eq_true, if_false, if_true,
          List.length_cons]
        exact Nat.lt_succ_of_le (hLess ..)

/-- A text is a word, the spaces behind it, and the rest from the next word on. -/
theorem exists_word_spaces {cs : List Char} (hNonempty : cs ≠ []) :
    ∃ word n rest, cs = word ++ (spaces n ++ rest) ∧ (∀ c ∈ word, c ≠ ' ') ∧
      (∀ c r, rest = c :: r → c ≠ ' ') ∧ (n = 0 → rest = []) ∧ rest.length < cs.length := by
  obtain ⟨word, gap, rest, hText, hWord, hGap, hRest, hLast, hLess⟩ :=
    exists_word_gap (· == ' ') hNonempty
  have hSpaces : gap = spaces gap.length :=
    List.eq_replicate_iff.2 ⟨rfl, fun c hc => by simpa using hGap c hc⟩
  refine ⟨word, gap.length, rest, by rw [← hSpaces]; exact hText, ?_, ?_, ?_, hLess⟩
  · exact fun c hc => by simpa using hWord c hc
  · exact fun c r h => by simpa using hRest c r h
  · exact fun h => hLast (List.eq_nil_of_length_eq_zero h)

/-- Whether the text stands neither at a blank nor at a line end. -/
def StopsGap (rest : List Char) : Prop := ∀ c r, rest = c :: r → isSpaceOrBreak c = false

theorem stopsGap_of_startsToken {rest : List Char}
    (h : ∀ c r, rest = c :: r → startsToken c = true) : StopsGap rest := by
  intro c r hRest
  have := h c r hRest
  simp only [startsToken, Bool.and_eq_true, Bool.not_eq_true'] at this
  exact this.1.1

namespace Gap

variable {rest : List Char} {i l k margin : Nat} {g : Gap}

theorem scan_stop (h : StopsGap rest) (fuel : Nat) :
    g.scan margin fuel ⟨rest, i, l, k⟩ = .ok (g, ⟨rest, i, l, k⟩) := by
  cases fuel with
  | zero => rfl
  | succ fuel =>
    cases rest with
    | nil => rfl
    | cons c r =>
      have hc := h c r rfl
      simp only [isSpaceOrBreak, Bool.or_eq_false_iff] at hc
      simp [scan, hc.1, hc.2]

/-- Spaces between two words of a line stay. -/
theorem scan_spaces (margin fuel : Nat) (hWhole : g.broken = false) (h : StopsGap rest) (n : Nat)
    (hFuel : n ≤ fuel) :
    g.scan margin fuel ⟨spaces n ++ rest, i, l, k⟩ =
      .ok ({ g with blanks := g.blanks ++ spaces n }, ⟨rest, i + n, l, k + n⟩) := by
  induction n generalizing g i k fuel with
  | zero => simpa [spaces] using scan_stop h fuel
  | succ n ih =>
    obtain ⟨fuel, rfl⟩ : ∃ m, fuel = m + 1 := ⟨fuel - 1, by omega⟩
    have hSpace : isSpaceOrTab ' ' = true := rfl
    have hText : spaces (n + 1) ++ rest = ' ' :: (spaces n ++ rest) := rfl
    rw [hText, scan]
    simp only [hSpace, hWhole, if_true, Bool.false_eq_true, if_false, Cursor.advance_one]
    rw [ih fuel rfl (by omega)]
    have hSize : ' '.utf8Size = 1 := rfl
    simp [spaces, List.replicate_succ, hSize, Nat.add_comm, Nat.add_left_comm]

/-- Spaces at the start of a line are dropped. -/
theorem scan_indentation (margin : Nat) (hBroken : g.broken = true) (h : StopsGap rest) (n : Nat)
    {fuel : Nat} (hFuel : n ≤ fuel) :
    g.scan margin fuel ⟨spaces n ++ rest, i, l, k⟩ = .ok (g, ⟨rest, i + n, l, k + n⟩) := by
  induction n generalizing i k fuel with
  | zero => simpa [spaces] using scan_stop h fuel
  | succ n ih =>
    obtain ⟨fuel, rfl⟩ : ∃ m, fuel = m + 1 := ⟨fuel - 1, by omega⟩
    have hSpace : isSpaceOrTab ' ' = true := rfl
    have hText : spaces (n + 1) ++ rest = ' ' :: (spaces n ++ rest) := rfl
    rw [hText, scan]
    simp only [hSpace, hBroken, if_true, Cursor.advance_one]
    rw [if_neg (by simp), ih (by omega)]
    have hSize : ' '.utf8Size = 1 := rfl
    rw [hSize, Nat.add_right_comm i, Nat.add_right_comm k, Nat.add_assoc i, Nat.add_assoc k]

/-- The line end behind a word and the spaces in front of the next are passed. -/
theorem scan_newline (margin : Nat) (h : StopsGap rest) (n : Nat) {fuel : Nat} (hFuel : n < fuel) :
    Gap.none.scan margin fuel ⟨'\n' :: (spaces n ++ rest), i, l, k⟩ =
      .ok (⟨[], ['\n'], [], true⟩, ⟨rest, i + 1 + n, l + 1, n⟩) := by
  obtain ⟨fuel, rfl⟩ : ∃ m, fuel = m + 1 := ⟨fuel - 1, by omega⟩
  have hNext := Cursor.nextLine_cons (b := '\n') rfl (by decide) (spaces n ++ rest) i l k
  have hIndentation := scan_indentation (i := i + 1) (l := l + 1) (k := 0)
    (g := ⟨[], ['\n'], [], true⟩) margin rfl h n (Nat.le_of_lt_succ hFuel)
  rw [Nat.zero_add] at hIndentation
  rw [scan]
  simp only [show isSpaceOrTab '\n' = false from rfl, show isBreak '\n' = true from rfl,
    Bool.false_eq_true, if_false, if_true, none, hNext]
  exact hIndentation

end Gap

/-! ### Words of a plain scalar -/

/-- What ends a plain scalar outside of brackets: the end of its line, or the colon behind a key. -/
inductive EndsPlain : List Char → Prop
  | atLineEnd (r : List Char) : EndsPlain ('\n' :: r)
  | atColon {r : List Char} : endsWord r = true → EndsPlain (':' :: r)

/-- A word is read up to the space or the end behind it. -/
theorem plainRun_word {tail : List Char} (hTail : EndsPlain tail) (word rest : List Char)
    (previous : Char) (hWord : ∀ c ∈ word, isSpaceOrBreak c = false)
    (hRest : ∀ c r, rest = c :: r → c = ' ')
    (hInner : hasInnerIndicator previous (word ++ rest) = false) :
    plainRun false (word ++ (rest ++ tail)) = .ok word := by
  induction word generalizing previous with
  | nil =>
    cases rest with
    | cons c r =>
      obtain rfl := hRest c r rfl
      rfl
    | nil =>
      cases hTail with
      | atLineEnd r => rfl
      | atColon h => simp [plainRun, isSpaceOrBreak, isSpaceOrTab, isBreak, h]
  | cons c word ih =>
    obtain ⟨hc, hWord⟩ := List.forall_mem_cons.1 hWord
    simp only [List.cons_append, hasInnerIndicator, Bool.or_eq_false_iff] at hInner
    obtain ⟨⟨hColon, -⟩, hInner⟩ := hInner
    have hStays : (c == ':' && endsWord (word ++ (rest ++ tail))) = false := by
      cases hText : word ++ rest with
      | nil =>
        rw [hText] at hColon
        simp only [endsWord, Bool.and_true] at hColon
        simp [hColon]
      | cons d r =>
        rw [hText] at hColon
        rw [← List.append_assoc, hText]
        exact hColon
    rw [List.cons_append, plainRun]
    simp only [hc, Bool.false_eq_true, if_false, Bool.false_and, hStays, Bool.or_self,
      ih c hWord hInner]
    rfl

/-- Behind a word of a text, the rest of the text has no indicator either. -/
theorem hasInnerIndicator_append {cs ds : List Char} {previous : Char}
    (h : hasInnerIndicator previous (cs ++ ds) = false) :
    hasInnerIndicator (cs.getLast?.getD previous) ds = false := by
  induction cs generalizing previous with
  | nil => exact h
  | cons c cs ih =>
    simp only [List.cons_append, hasInnerIndicator, Bool.or_eq_false_iff] at h
    rw [List.getLast?_cons]
    exact ih h.2

theorem Cursor.exists_of_atMarker {c : Cursor} {mark : Char} (h : c.atMarker mark = true) :
    ∃ r, c.rest = mark :: mark :: mark :: r := by
  rw [atMarker, Bool.and_eq_true] at h
  obtain ⟨-, h⟩ := h
  split at h
  · rename_i a b d r hRest
    simp only [Bool.and_eq_true, beq_iff_eq] at h
    obtain ⟨⟨⟨rfl, rfl⟩, rfl⟩, -⟩ := h
    exact ⟨r, hRest⟩
  · exact absurd h (by decide)

theorem Cursor.atDocumentMarker_of_column {rest : List Char} {i l k : Nat} (h : 0 < k) :
    atDocumentMarker ⟨rest, i, l, k⟩ = false := by
  have hColumn : (k == 0) = false := by simp; omega
  simp [atDocumentMarker, atMarker, hColumn]

/-- A word starts here that belongs to a plain scalar: neither a marker nor a comment does. -/
structure StartsWord (c : Cursor) : Prop where
  noMarker : c.atDocumentMarker = false
  noComment : (c.peek? == some '#') = false

section Words

variable {word more tail next : List Char} {g : Gap} {i l k j fuel margin : Nat}

/-- A word is read first, then the gap behind it, and what is left unless it stands left of the
margin. -/
theorem scanPlain_word (hStart : StartsWord ⟨word ++ more, i, l, k⟩) (hWord : word ≠ [])
    (hRun : plainRun false (word ++ more) = .ok word) :
    scanPlain false margin (fuel + 1) g ⟨word ++ more, i, l, k⟩ =
      if more.head?.any isSpaceOrBreak then do
        let (g', c) ← Gap.none.scan margin fuel
          ⟨more, i + byteLength word, l, k + word.length⟩
        if c.column < margin then .ok (g.text ++ word, g'.broken, c)
        else
          let (text, broken, c) ← scanPlain false margin fuel g' c
          .ok (g.text ++ word ++ text, broken, c)
      else .ok (g.text ++ word, false, ⟨more, i + byteLength word, l, k + word.length⟩) := by
  have hEmpty : word.isEmpty = false := by simpa using hWord
  rw [scanPlain]
  simp only [hStart.noMarker, hStart.noComment, Bool.or_self, Bool.false_eq_true, if_false, hRun,
    bind, Except.bind, hEmpty, Cursor.advance_append, Bool.not_false, Bool.true_and,
    decide_eq_true_eq]
  rfl

/-- The last word in front of a colon. -/
theorem scanPlain_atColon (hStart : StartsWord ⟨word ++ ':' :: tail, i, l, k⟩)
    (hWord : word ≠ []) (hRun : plainRun false (word ++ ':' :: tail) = .ok word) :
    scanPlain false margin (fuel + 1) g ⟨word ++ ':' :: tail, i, l, k⟩ =
      .ok (g.text ++ word, false, ⟨':' :: tail, i + byteLength word, l, k + word.length⟩) := by
  rw [scanPlain_word hStart hWord hRun]
  rfl

/-- The word in front of another one on its line. -/
theorem scanPlain_atSpace (margin : Nat) (next : List Char) (fuel : Nat)
    (hStart : StartsWord ⟨word ++ (spaces (j + 1) ++ next), i, l, k⟩) (hWord : word ≠ [])
    (hRun : plainRun false (word ++ (spaces (j + 1) ++ next)) = .ok word) (hStop : StopsGap next)
    (hMargin : margin ≤ k + 1) (hFuel : j < fuel) :
    scanPlain false margin (fuel + 1) g ⟨word ++ (spaces (j + 1) ++ next), i, l, k⟩ =
      (scanPlain false margin fuel ⟨spaces (j + 1), [], [], false⟩
        ⟨next, i + byteLength word + (j + 1), l, k + word.length + (j + 1)⟩).map
          fun r => (g.text ++ word ++ r.1, r.2) := by
  have hSpace : (spaces (j + 1) ++ next).head?.any isSpaceOrBreak = true := rfl
  have hGap := Gap.scan_spaces (g := Gap.none) (i := i + byteLength word) (l := l)
    (k := k + word.length) margin _ rfl hStop (j + 1) hFuel
  have hColumn : ¬ k + word.length + (j + 1) < margin := by omega
  rw [scanPlain_word hStart hWord hRun, if_pos hSpace, hGap]
  simp only [bind, Except.bind, hColumn, if_false]
  have hBlanks : ({ Gap.none with blanks := Gap.none.blanks ++ spaces (j + 1) } : Gap) =
      ⟨spaces (j + 1), [], [], false⟩ := rfl
  rw [hBlanks]
  cases scanPlain false margin fuel ⟨spaces (j + 1), [], [], false⟩ _ <;> rfl

/-- The last word of a line. What follows does not belong to the scalar: it is left of the margin,
or it is a marker or nothing. -/
theorem scanPlain_atLineEnd (hStart : StartsWord ⟨word ++ '\n' :: (spaces j ++ next), i, l, k⟩)
    (hWord : word ≠ [])
    (hRun : plainRun false (word ++ '\n' :: (spaces j ++ next)) = .ok word)
    (hStop : StopsGap next) (hEnds : j < margin ∨ j = 0 ∧
      (next = [] ∨ ∀ i l, (⟨next, i, l, 0⟩ : Cursor).atDocumentMarker = true)) (hFuel : j < fuel) :
    scanPlain false margin (fuel + 1) g ⟨word ++ '\n' :: (spaces j ++ next), i, l, k⟩ =
      .ok (g.text ++ word, true, ⟨next, i + byteLength word + 1 + j, l + 1, j⟩) := by
  have hBreak : ('\n' :: (spaces j ++ next)).head?.any isSpaceOrBreak = true := rfl
  have hGap := Gap.scan_newline (i := i + byteLength word) (l := l) (k := k + word.length) margin
    hStop j hFuel
  have hBehind : ¬ j < margin → scanPlain false margin fuel ⟨[], ['\n'], [], true⟩
      ⟨next, i + byteLength word + 1 + j, l + 1, j⟩ =
        .ok ([], true, ⟨next, i + byteLength word + 1 + j, l + 1, j⟩) := by
    intro hNot
    obtain ⟨fuel, rfl⟩ : ∃ m, fuel = m + 1 := ⟨fuel - 1, by omega⟩
    obtain ⟨rfl, hNext⟩ := hEnds.resolve_left hNot
    rw [scanPlain]
    rcases hNext with rfl | hMarker
    · rfl
    · simp [hMarker]
  rw [scanPlain_word hStart hWord hRun, if_pos hBreak, hGap]
  simp only [bind, Except.bind]
  split
  · rfl
  · rename_i hNot
    rw [hBehind hNot]
    simp

end Words

/-- Words with spaces between them, behind the character `previous`. -/
structure Wordy (previous : Char) (cs : List Char) : Prop where
  onlySpaces : ∀ c ∈ cs, isSpaceOrBreak c = true → c = ' '
  head : cs.head? ≠ some ' '
  last : cs.getLast? ≠ some ' '
  noIndicator : hasInnerIndicator previous cs = false

/-- What is left behind a gap are words too, which do not start a comment. -/
theorem Wordy.behind_spaces {previous c : Char} {word r : List Char} {n : Nat}
    (h : Wordy previous (word ++ (spaces (n + 1) ++ c :: r))) (hSpace : c ≠ ' ') :
    Wordy ' ' (c :: r) ∧ c ≠ '#' := by
  have hLast : (spaces (n + 1)).getLast? = some ' ' := by
    simp [spaces, List.replicate_succ']
  have hInner := hasInnerIndicator_append (hasInnerIndicator_append h.noIndicator)
  rw [hLast, Option.getD_some] at hInner
  refine ⟨⟨fun d hd => h.onlySpaces d (by simp [hd]), by simpa using hSpace, ?_, hInner⟩, ?_⟩
  · have := h.last
    simpa using this
  · rintro rfl
    simp [hasInnerIndicator, isSpaceOrBreak, isSpaceOrTab] at hInner

/-- A text of words is read to its end when its last word is. -/
theorem scanPlain_words (finish : Nat → Nat → Bool × Cursor) (fuel : Nat) {tail : List Char}
    {margin l : Nat} (hTail : EndsPlain tail)
    (hEnd : ∀ word g i k fuel, StartsWord ⟨word ++ tail, i, l, k⟩ → word ≠ [] →
      plainRun false (word ++ tail) = .ok word → tail.length < fuel →
      scanPlain false margin (fuel + 1) g ⟨word ++ tail, i, l, k⟩ =
        .ok (g.text ++ word, finish (i + byteLength word) (k + word.length))) (cs : List Char)
    (hNonempty : cs ≠ []) (previous : Char) (hWordy : Wordy previous cs) (g : Gap) (i k : Nat)
    (hStart : StartsWord ⟨cs ++ tail, i, l, k⟩) (hMargin : margin ≤ k + 1)
    (hFuel : (cs ++ tail).length < fuel) :
    scanPlain false margin fuel g ⟨cs ++ tail, i, l, k⟩ =
      .ok (g.text ++ cs, finish (i + byteLength cs) (k + cs.length)) := by
  obtain ⟨fuel, rfl⟩ : ∃ m, fuel = m + 1 := ⟨fuel - 1, by omega⟩
  obtain ⟨word, n, rest, rfl, hWord, hRest, hLast, hLess⟩ := exists_word_spaces hNonempty
  have hNe : word ≠ [] := by
    rintro rfl
    cases n with
    | zero => exact hNonempty (by simp [hLast rfl, spaces])
    | succ n => exact hWordy.head rfl
  have hNoSpace : ∀ c ∈ word, isSpaceOrBreak c = false := by
    intro c hc
    cases hSpace : isSpaceOrBreak c with
    | false => rfl
    | true => exact absurd (hWordy.onlySpaces c (List.mem_append_left _ hc) hSpace) (hWord c hc)
  have hRun : plainRun false (word ++ (spaces n ++ rest ++ tail)) = .ok word := by
    refine plainRun_word hTail word (spaces n ++ rest) previous hNoSpace ?_ hWordy.noIndicator
    intro c r hText
    cases n with
    | zero => simp [hLast rfl, spaces] at hText
    | succ n => exact (List.cons.inj hText).1.symm
  cases n with
  | zero =>
    obtain rfl := hLast rfl
    simp only [spaces, List.replicate_zero, List.append_nil, List.nil_append] at *
    exact hEnd word g i k fuel hStart hNe hRun (by simp at hFuel; omega)
  | succ n =>
    obtain ⟨c, r, rfl⟩ : ∃ c r, rest = c :: r := by
      cases rest with
      | nil =>
        refine absurd ?_ hWordy.last
        simp [spaces, List.replicate_succ']
      | cons c r => exact ⟨c, r, rfl⟩
    obtain ⟨hBehind, hComment⟩ := hWordy.behind_spaces (hRest c r rfl)
    have hStop : StopsGap (c :: r ++ tail) := by
      intro d q hd
      obtain rfl : c = d := (List.cons.inj hd).1
      cases hc : isSpaceOrBreak c with
      | false => rfl
      | true => exact absurd (hBehind.onlySpaces c (List.mem_cons_self ..) hc) (hRest c r rfl)
    have hLength : n + (c :: r ++ tail).length < fuel := by
      simp [spaces] at hFuel
      simp
      omega
    have hNext := scanPlain_words _ fuel hTail hEnd (c :: r) (by simp) ' ' hBehind
      ⟨spaces (n + 1), [], [], false⟩ (i + byteLength word + (n + 1)) (k + word.length + (n + 1))
      ⟨Cursor.atDocumentMarker_of_column (by omega), by simpa [Cursor.peek?] using hComment⟩
      (by omega) (by omega)
    have hStep := scanPlain_atSpace (g := g) (i := i) (l := l) margin (c :: r ++ tail) fuel
      (by simpa using hStart) hNe (by simpa using hRun) hStop hMargin (by omega)
    rw [List.append_assoc, List.append_assoc, hStep, hNext]
    simp [Except.map, Gap.text, spaces, Nat.add_assoc]
termination_by cs.length

/-! ### Texts without quotes -/

/-- The texts that are read as they stand. -/
structure ReadsPlain (cs : List Char) : Prop where
  nonempty : cs ≠ []
  noMark : cs.head? ≠ some '\ufeff'
  onlySpaces : ∀ c ∈ cs, isSpaceOrBreak c = true → c = ' '
  head : cs.head? ≠ some ' '
  last : cs.getLast? ≠ some ' '
  noIndicator : hasIndicator cs = false

namespace ReadsPlain

variable {cs tail : List Char} {c : Char} {r : List Char}

theorem wordy (h : ReadsPlain cs) : Wordy ' ' cs := by
  refine ⟨h.onlySpaces, h.head, h.last, ?_⟩
  have hIndicator := h.noIndicator
  cases cs with
  | nil => rfl
  | cons c r =>
    simp only [hasIndicator, Bool.or_eq_false_iff] at hIndicator
    obtain ⟨⟨⟨⟨hFirst, hMark⟩, -⟩, -⟩, hInner⟩ := hIndicator
    have hComment : (c == '#') = false := by
      cases hc : c == '#' with
      | false => rfl
      | true =>
        rw [beq_iff_eq] at hc
        exact absurd hFirst (by subst hc; decide)
    simp only [hasInnerIndicator, hInner, hComment, Bool.false_and, Bool.or_false]
    cases hColon : c == ':' with
    | false => rfl
    | true =>
      rw [hColon] at hMark
      simpa using hMark

/-- No marker starts such a text. -/
theorem atMarker_eq_false (mark : Char) (h : ReadsPlain cs) (hTail : EndsPlain tail)
    (hMark : mark = '-' ∨ mark = '.') (i l k : Nat) :
    (⟨cs ++ tail, i, l, k⟩ : Cursor).atMarker mark = false := by
  cases hAt : (⟨cs ++ tail, i, l, k⟩ : Cursor).atMarker mark with
  | false => rfl
  | true =>
    exfalso
    obtain ⟨q, hText⟩ := Cursor.exists_of_atMarker hAt
    have hNe : '\n' ≠ mark ∧ ':' ≠ mark := by rcases hMark with rfl | rfl <;> decide
    have hFirst : ∀ r, tail ≠ mark :: r := by
      rintro r rfl
      cases hTail
      · exact hNe.1 rfl
      · exact hNe.2 rfl
    match cs, h.nonempty, h.noIndicator, hText with
    | [a], _, _, hText => exact hFirst _ (List.cons.inj hText).2
    | [a, b], _, _, hText => exact hFirst _ (List.cons.inj (List.cons.inj hText).2).2
    | a :: b :: d :: r, _, hIndicator, hText =>
      simp only [List.cons_append, List.cons.injEq] at hText
      obtain ⟨rfl, rfl, rfl, -⟩ := hText
      simp only [hasIndicator, Bool.or_eq_false_iff] at hIndicator
      obtain ⟨⟨⟨-, hDash⟩, hDot⟩, -⟩ := hIndicator
      rcases hMark with rfl | rfl
      · simp [List.isPrefixOf] at hDash
      · simp [List.isPrefixOf] at hDot

/-- Such a text starts a plain scalar. -/
theorem startsWord (h : ReadsPlain cs) (hTail : EndsPlain tail) (i l k : Nat) :
    StartsWord ⟨cs ++ tail, i, l, k⟩ where
  noMarker := by
    rw [Cursor.atDocumentMarker, h.atMarker_eq_false _ hTail (.inl rfl),
      h.atMarker_eq_false _ hTail (.inr rfl)]
    rfl
  noComment := by
    have hIndicator := h.noIndicator
    cases cs with
    | nil => exact absurd rfl h.nonempty
    | cons c r =>
      simp only [hasIndicator, Bool.or_eq_false_iff] at hIndicator
      simp only [Cursor.peek?, List.cons_append, List.head?_cons, beq_eq_false_iff_ne, ne_eq,
        Option.some.injEq]
      rintro rfl
      exact absurd hIndicator.1.1.1.1 (by decide)

/-- In front of a colon, such a text is read up to it. -/
theorem scanPlain_key (margin fuel : Nat) (h : ReadsPlain cs) (hTail : endsWord tail = true)
    {i l k : Nat} (hMargin : margin ≤ k + 1) (hFuel : (cs ++ ':' :: tail).length < fuel) :
    scanPlain false margin fuel .none ⟨cs ++ ':' :: tail, i, l, k⟩ =
      .ok (cs, false, ⟨':' :: tail, i + byteLength cs, l, k + cs.length⟩) :=
  scanPlain_words (fun i k => (false, ⟨':' :: tail, i, l, k⟩)) _ (.atColon hTail)
    (fun _ _ _ _ _ hStart hWord hRun _ => scanPlain_atColon hStart hWord hRun) cs h.nonempty ' '
    h.wordy .none i k (h.startsWord (.atColon hTail) i l k) hMargin hFuel

/-- At the end of a line, such a text is read up to the next token. -/
theorem scanPlain_line (margin fuel : Nat) (h : ReadsPlain cs) {next : List Char} {i l k j : Nat}
    (hStop : StopsGap next) (hEnds : j < margin ∨ j = 0 ∧
      (next = [] ∨ ∀ i l, (⟨next, i, l, 0⟩ : Cursor).atDocumentMarker = true))
    (hMargin : margin ≤ k + 1) (hFuel : (cs ++ '\n' :: (spaces j ++ next)).length < fuel) :
    scanPlain false margin fuel .none ⟨cs ++ '\n' :: (spaces j ++ next), i, l, k⟩ =
      .ok (cs, true, ⟨next, i + byteLength cs + 1 + j, l + 1, j⟩) :=
  scanPlain_words (fun i _ => (true, ⟨next, i + 1 + j, l + 1, j⟩)) _ (.atLineEnd _)
    (fun _ _ _ _ _ hStart hWord hRun hLess => scanPlain_atLineEnd hStart hWord hRun hStop hEnds
      (by simp [spaces] at hLess; omega)) cs h.nonempty ' ' h.wordy .none i k
    (h.startsWord (.atLineEnd _) i l k) hMargin hFuel

end ReadsPlain

end KubeCompose.Yaml
