import KubeCompose.Proofs.RoundTrip.Digits
import KubeCompose.Proofs.RoundTrip.Plain

/-!
# Quoted scalars that are read back

A quoted scalar is read run by run, with the gaps between the runs. In single quotes the gaps are
the spaces and the line ends of the text, with an indentation behind a line end; in double quotes
they are its spaces, and everything else stands in a run.
-/

namespace KubeCompose.Yaml

open Number (hexadecimal readDigits?)

/-! ### Runs -/

/-- The run of a quoted scalar at the front of a text. -/
def quotedRun (quote : Char) (cs : List Char) : Except ReadError QuotedRun :=
  if quote = '"' then doubleQuotedRun cs else .ok (singleQuotedRun cs)

/-- A character of a text in single quotes. -/
def singleChar (c : Char) : List Char := if c == '\'' then ['\'', '\''] else [c]

/-- A character of a text in double quotes. -/
def doubleChar (c : Char) : List Char :=
  if !isPrintable c || isBreak c || c == '"' || c == '\\' then escape c else [c]

/-- A character is read in a run of the scalar as `write` writes it. -/
def ReadsRun (quote : Char) (write : Char → List Char) (c : Char) : Prop :=
  ∀ rest, quotedRun quote (write c ++ rest) =
    (quotedRun quote rest).map (·.cons c (write c).length)

/-- The characters of a word make one run. -/
theorem quotedRun_word (quote : Char) (rest : List Char) {write : Char → List Char}
    (word : List Char) (hWord : ∀ c ∈ word, ReadsRun quote write c)
    (hRest : quotedRun quote rest = .ok ⟨[], 0, false⟩) :
    quotedRun quote (word.flatMap write ++ rest) =
      .ok ⟨word, (word.flatMap write).length, false⟩ := by
  induction word with
  | nil => exact hRest
  | cons c word ih =>
    obtain ⟨hc, hWord⟩ := List.forall_mem_cons.1 hWord
    rw [List.flatMap_cons, List.append_assoc, hc, ih hWord, List.length_append]
    simp [Except.map, QuotedRun.cons, Nat.add_comm]

theorem readsRun_single {c : Char} (h : isSpaceOrBreak c = false) :
    ReadsRun '\'' singleChar c := by
  intro rest
  simp only [quotedRun, if_neg (show ¬ '\'' = '"' by decide), Except.map, singleChar]
  by_cases hc : c = '\''
  · subst hc
    rfl
  · have hQuote : (c == '\'') = false := by simpa using hc
    simp only [hQuote, Bool.false_eq_true, if_false, List.singleton_append, List.length_singleton]
    rw [singleQuotedRun]
    · simp [hQuote, h]
    · rintro r rfl
      exact absurd rfl hc

/-- A character of its own escape mark. -/
theorem readsRun_of_escaped {c e : Char} (hWrite : doubleChar c = ['\\', e])
    (hBreak : isBreak e = false) (hEscaped : escaped? e = some c) :
    ReadsRun '"' doubleChar c := by
  intro rest
  simp only [quotedRun, if_true, hWrite, List.cons_append, List.nil_append]
  rw [doubleQuotedRun]
  simp [hBreak, hEscaped]

/-- A character written by its number. -/
theorem readsRun_of_number {c e : Char} {width : Nat}
    (hWrite : doubleChar c = '\\' :: e :: hexadecimal width c.toNat) (hBreak : isBreak e = false)
    (hEscaped : escaped? e = none) (hWidth : escapeWidth? e = some width) (hPos : 0 < width)
    (hSize : c.toNat < 16 ^ width) : ReadsRun '"' doubleChar c := by
  intro rest
  have hLength := Number.length_hexadecimal hPos hSize
  have hTake : (hexadecimal width c.toNat ++ rest).take width = hexadecimal width c.toNat :=
    List.take_left' hLength
  have hDrop : (hexadecimal width c.toNat ++ rest).drop width = rest := List.drop_left' hLength
  have hValid : c.toNat.isValidChar := c.valid
  have hChar : Char.ofNat c.toNat = c := Char.ofNat_toNat c
  simp only [quotedRun, if_true, hWrite, List.cons_append]
  rw [doubleQuotedRun]
  have hAll : 2 + width = width + 1 + 1 := by omega
  simp [hBreak, hEscaped, hWidth, hTake, hDrop, hLength, hValid, hChar, hAll]

theorem readsRun_double {c : Char} (h : c ≠ ' ') : ReadsRun '"' doubleChar c := by
  cases hPlain : !isPrintable c || isBreak c || c == '"' || c == '\\' with
  | false =>
    intro rest
    simp only [Bool.or_eq_false_iff, Bool.not_eq_false'] at hPlain
    obtain ⟨⟨⟨hPrintable, hBreak⟩, hQuote⟩, hSlash⟩ := hPlain
    have hTab : (c == '\t') = false := by
      cases hc : c == '\t' with
      | false => rfl
      | true =>
        rw [beq_iff_eq] at hc
        rw [hc] at hPrintable
        exact absurd hPrintable (by decide)
    have hWrite : doubleChar c = [c] := by simp [doubleChar, hPrintable, hBreak, hQuote, hSlash]
    have hNotSlash : c ≠ '\\' := by simpa using hSlash
    simp only [quotedRun, if_true, hWrite, List.singleton_append]
    rw [doubleQuotedRun]
    · simp [hQuote, isSpaceOrBreak, isSpaceOrTab, hTab, hBreak, h]
    · exact hNotSlash
  | true =>
    have hWrite : doubleChar c = escape c := by rw [doubleChar, if_pos hPlain]
    unfold escape at hWrite
    dsimp only at hWrite
    split at hWrite
    case h_16 =>
      have hBound : c.toNat < 16 ^ 8 := by
        have := c.val.toNat_lt
        exact this
      split at hWrite
      · exact readsRun_of_number hWrite rfl rfl rfl (by decide) (by omega)
      · split at hWrite
        · exact readsRun_of_number hWrite rfl rfl rfl (by decide) (by omega)
        · exact readsRun_of_number hWrite rfl rfl rfl (by decide) hBound
    all_goals exact readsRun_of_escaped hWrite rfl rfl

/-! ### Gaps with line ends -/

/-- The line ends that stand for themselves. -/
def isSeparator (c : Char) : Bool := c == '\u2028' || c == '\u2029'

theorem isBreak_of_isSeparator {c : Char} (h : isSeparator c = true) : isBreak c = true := by
  simp only [isSeparator, Bool.or_eq_true, beq_iff_eq] at h
  rcases h with rfl | rfl <;> rfl

theorem ne_return_of_isSeparator {c : Char} (h : isSeparator c = true) : c ≠ '\r' := by
  rintro rfl
  exact absurd h (by decide)

theorem isSpaceOrTab_of_isSeparator {c : Char} (h : isSeparator c = true) :
    isSpaceOrTab c = false := by
  simp only [isSeparator, Bool.or_eq_true, beq_iff_eq] at h
  rcases h with rfl | rfl <;> rfl

theorem breakText_of_isSeparator {c : Char} (h : isSeparator c = true) (rest : List Char)
    (i l k : Nat) : (⟨c :: rest, i, l, k⟩ : Cursor).breakText = [c] := by
  have : (c == '\u2028' || c == '\u2029') = true := h
  simp [Cursor.breakText, this]

namespace Gap

variable {rest : List Char} {i l k margin n : Nat} {g : Gap}

/-- Further line ends and the indentation behind them. -/
theorem scan_separators (hBroken : g.broken = true) (hStop : StopsGap rest) (bs : List Char)
    (hBreaks : ∀ b ∈ bs, isSeparator b = true) {fuel : Nat} (hFuel : bs.length + n ≤ fuel) :
    g.scan margin fuel ⟨bs ++ (spaces n ++ rest), i, l, 0⟩ =
      .ok ({ g with laterBreaks := g.laterBreaks ++ bs },
        ⟨rest, i + byteLength bs + n, l + bs.length, n⟩) := by
  induction bs generalizing g i l fuel with
  | nil =>
    simp only [List.length_nil, Nat.zero_add] at hFuel
    have h := scan_indentation (i := i) (l := l) (k := 0) margin hBroken hStop n hFuel
    rw [Nat.zero_add] at h
    simpa using h
  | cons b bs ih =>
    obtain ⟨hb, hBreaks⟩ := List.forall_mem_cons.1 hBreaks
    rw [List.length_cons] at hFuel
    obtain ⟨fuel, rfl⟩ : ∃ m, fuel = m + 1 := ⟨fuel - 1, by omega⟩
    rw [List.cons_append, scan]
    simp only [isSpaceOrTab_of_isSeparator hb, isBreak_of_isSeparator hb, hBroken,
      Bool.false_eq_true, if_false, if_true, breakText_of_isSeparator hb,
      Cursor.nextLine_cons (isBreak_of_isSeparator hb) (ne_return_of_isSeparator hb)]
    rw [ih rfl hBreaks (by omega)]
    simp [Nat.add_assoc, Nat.add_comm 1]

/-- Line ends that stand for themselves, and the indentation behind them. -/
theorem scan_first_separator (margin fuel : Nat) {b : Char} {bs : List Char} (hStop : StopsGap rest)
    (hBreaks : ∀ c ∈ b :: bs, isSeparator c = true) (hFuel : (b :: bs).length + n ≤ fuel) :
    Gap.none.scan margin fuel ⟨b :: bs ++ (spaces n ++ rest), i, l, k⟩ =
      .ok (⟨[], [b], bs, true⟩,
        ⟨rest, i + byteLength (b :: bs) + n, l + (b :: bs).length, n⟩) := by
  obtain ⟨hb, hBreaks⟩ := List.forall_mem_cons.1 hBreaks
  rw [List.length_cons] at hFuel
  obtain ⟨fuel, rfl⟩ : ∃ m, fuel = m + 1 := ⟨fuel - 1, by omega⟩
  rw [List.cons_append, scan]
  simp only [isSpaceOrTab_of_isSeparator hb, isBreak_of_isSeparator hb, none,
    Bool.false_eq_true, if_false, if_true, breakText_of_isSeparator hb,
    Cursor.nextLine_cons (isBreak_of_isSeparator hb) (ne_return_of_isSeparator hb)]
  rw [scan_separators rfl hStop bs hBreaks (by omega)]
  simp [Nat.add_assoc, Nat.add_comm 1]

theorem text_of_separators {b : Char} {bs : List Char}
    (hBreaks : ∀ c ∈ b :: bs, isSeparator c = true) : text ⟨[], [b], bs, true⟩ = b :: bs := by
  have hFeed : b ≠ '\n' := by
    rintro rfl
    exact absurd (hBreaks _ (List.mem_cons_self ..)) (by decide)
  simp [text, hFeed]

end Gap

/-! ### The inside of a quoted scalar -/

/-- How the inside of a quoted scalar is made: `QuotedInner quote write inner text` says that
`inner` stands for `text`. A line end is followed by an indentation. -/
inductive QuotedInner (quote : Char) (write : Char → List Char) : List Char → List Char → Prop
  | last {word : List Char} : (∀ c ∈ word, ReadsRun quote write c) →
      QuotedInner quote write (word.flatMap write) word
  | space {word inner text : List Char} (n : Nat) : (∀ c ∈ word, ReadsRun quote write c) →
      StopsGap inner → QuotedInner quote write inner text →
      QuotedInner quote write (word.flatMap write ++ (spaces (n + 1) ++ inner))
        (word ++ (spaces (n + 1) ++ text))
  | lineEnd {word inner text bs : List Char} {b : Char} {n : Nat} :
      (∀ c ∈ word, ReadsRun quote write c) → (∀ c ∈ b :: bs, isSeparator c = true) → 0 < n →
      StopsGap inner → QuotedInner quote write inner text →
      QuotedInner quote write (word.flatMap write ++ (b :: bs ++ (spaces n ++ inner)))
        (word ++ (b :: bs ++ text))

theorem QuotedInner.nil {quote : Char} {write : Char → List Char} :
    QuotedInner quote write [] [] := by
  simpa using QuotedInner.last (show ∀ c ∈ [], ReadsRun quote write c by simp)

/-- A quote that ends a scalar: it is none of its characters. -/
structure EndsQuoted (quote : Char) (tail : List Char) : Prop where
  isQuote : quote = '\'' ∨ quote = '"'
  single : tail.head? ≠ some '\''

namespace EndsQuoted

variable {quote : Char} {tail : List Char} (h : EndsQuoted quote tail)
include h

theorem isSpaceOrBreak_eq_false : isSpaceOrBreak quote = false := by
  rcases h.isQuote with rfl | rfl <;> rfl

theorem quotedRun_eq : quotedRun quote (quote :: tail) = .ok ⟨[], 0, false⟩ := by
  rcases h.isQuote with rfl | rfl
  · simp only [quotedRun, if_neg (show ¬ '\'' = '"' by decide)]
    rw [singleQuotedRun]
    · rfl
    · rintro r - rfl
      exact h.single rfl
  · simp only [quotedRun, if_true]
    rw [doubleQuotedRun]
    · rfl
    · decide

theorem stopsGap {inner : List Char} (hInner : StopsGap inner) :
    StopsGap (inner ++ quote :: tail) := by
  intro c r hText
  cases inner with
  | nil =>
    injection hText with hc _
    rw [← hc]
    exact h.isSpaceOrBreak_eq_false
  | cons d q =>
    injection hText with hc _
    exact hInner c q (by rw [hc])

end EndsQuoted

theorem quotedRun_of_gap {quote c : Char} (h : isSpaceOrBreak c = true) (rest : List Char) :
    quotedRun quote (c :: rest) = .ok ⟨[], 0, false⟩ := by
  have hNe : c ≠ '\'' ∧ c ≠ '\\' := by
    constructor <;> rintro rfl <;> exact absurd h (by decide)
  unfold quotedRun
  split
  · rw [doubleQuotedRun]
    · simp [h]
    · exact hNe.2
  · rw [singleQuotedRun]
    · simp [h]
    · rintro r rfl
      exact absurd rfl hNe.1

section Scan

variable {quote : Char} {run word rest : List Char} {i l k fuel : Nat}

/-- A run is read first; the scalar ends behind it or goes on behind a gap. -/
theorem scanQuoted_run (hColumn : 0 < k) (hRest : rest ≠ [])
    (hRun : quotedRun quote (run ++ rest) = .ok ⟨word, run.length, false⟩) :
    scanQuoted quote (fuel + 1) ⟨run ++ rest, i, l, k⟩ =
      (let c : Cursor := ⟨rest, i + byteLength run, l, k + run.length⟩
      if c.peek? = some quote then .ok (word, c.advance 1)
      else do
        let (g, c) ← Gap.none.scan 0 fuel c
        let (text, c) ← scanQuoted quote fuel c
        .ok (word ++ g.text ++ text, c)) := by
  have hSome : (run ++ rest).isEmpty = false := by simp [hRest]
  rw [scanQuoted]
  unfold quotedRun at hRun
  split at hRun
  · rename_i hQuote
    simp only [Cursor.atDocumentMarker_of_column hColumn, hSome, Bool.or_self,
      Bool.false_eq_true, if_false, hQuote, if_true, hRun, bind, Except.bind,
      Cursor.advance_append]
  · rename_i hQuote
    simp only [Except.ok.injEq] at hRun
    simp only [Cursor.atDocumentMarker_of_column hColumn, hSome, Bool.or_self,
      Bool.false_eq_true, if_false, hQuote, hRun, bind, Except.bind, Cursor.advance_append]

/-- A run that the closing quote follows. -/
theorem scanQuoted_last (hColumn : 0 < k)
    (hRun : quotedRun quote (run ++ quote :: rest) = .ok ⟨word, run.length, false⟩) :
    scanQuoted quote (fuel + 1) ⟨run ++ quote :: rest, i, l, k⟩ =
      .ok (word, ⟨rest, i + byteLength run + quote.utf8Size, l, k + run.length + 1⟩) := by
  rw [scanQuoted_run hColumn (by simp) hRun]
  simp [Cursor.peek?]

/-- A run that a gap follows. -/
theorem scanQuoted_gap (fuel : Nat) {c : Char} (hColumn : 0 < k) (hGap : isSpaceOrBreak c = true)
    (hQuote : isSpaceOrBreak quote = false)
    (hRun : quotedRun quote (run ++ c :: rest) = .ok ⟨word, run.length, false⟩) :
    scanQuoted quote (fuel + 1) ⟨run ++ c :: rest, i, l, k⟩ = (do
      let (g, c) ← Gap.none.scan 0 fuel ⟨c :: rest, i + byteLength run, l, k + run.length⟩
      let (text, c) ← scanQuoted quote fuel c
      .ok (word ++ g.text ++ text, c)) := by
  have hPeek : ¬ some c = some quote := by
    rintro hEq
    obtain rfl := Option.some.inj hEq
    rw [hQuote] at hGap
    exact absurd hGap (by decide)
  rw [scanQuoted_run hColumn (by simp) hRun]
  exact if_neg hPeek

end Scan

/-- The inside of a quoted scalar is read up to the closing quote. Only a line end in it ends the
line. -/
theorem scanQuoted_inner {quote : Char} {write : Char → List Char} {inner text tail : List Char}
    (hInner : QuotedInner quote write inner text) (hEnds : EndsQuoted quote tail) {i l k : Nat}
    (hColumn : 0 < k) :
    ∃ l' k', l ≤ l' ∧ ((∀ c ∈ text, isBreak c = false) → l' = l ∧ k ≤ k') ∧
      ∀ fuel, (inner ++ quote :: tail).length < fuel →
        scanQuoted quote fuel ⟨inner ++ quote :: tail, i, l, k⟩ =
          .ok (text, ⟨tail, i + byteLength inner + quote.utf8Size, l', k'⟩) := by
  induction hInner generalizing i l k with
  | @last word hWord =>
    refine ⟨l, k + (word.flatMap write).length + 1, Nat.le_refl l, fun _ => ⟨rfl, by omega⟩,
      fun fuel hFuel => ?_⟩
    obtain ⟨fuel, rfl⟩ : ∃ m, fuel = m + 1 := ⟨fuel - 1, by omega⟩
    exact scanQuoted_last hColumn (quotedRun_word _ _ _ hWord hEnds.quotedRun_eq)
  | @space word inner text n hWord hStop _ ih =>
    obtain ⟨l', k', hLine, hSame, hScan⟩ := ih
      (i := i + byteLength (word.flatMap write) + (n + 1)) (l := l)
      (k := k + (word.flatMap write).length + (n + 1)) (by omega)
    refine ⟨l', k', hLine, fun h => ?_, fun fuel hFuel => ?_⟩
    · obtain ⟨hEq, hLess⟩ := hSame fun c hc => h c (by simp [hc])
      exact ⟨hEq, by omega⟩
    obtain ⟨fuel, rfl⟩ : ∃ m, fuel = m + 1 := ⟨fuel - 1, by omega⟩
    simp only [List.append_assoc, List.length_append, List.length_cons] at hFuel
    have hLength : (spaces (n + 1)).length = n + 1 := List.length_replicate ..
    have hRun := quotedRun_word quote (spaces (n + 1) ++ (inner ++ quote :: tail)) word hWord
      (quotedRun_of_gap (c := ' ') rfl _)
    have hGap := Gap.scan_spaces (g := .none) (i := i + byteLength (word.flatMap write)) (l := l)
      (k := k + (word.flatMap write).length) 0 fuel rfl (hEnds.stopsGap hStop) (n + 1) (by omega)
    have hStep := scanQuoted_gap (i := i) (l := l) fuel hColumn
      (show isSpaceOrBreak ' ' = true from rfl) hEnds.isSpaceOrBreak_eq_false hRun
    rw [List.append_assoc, List.append_assoc]
    refine hStep.trans ?_
    change (Gap.none.scan 0 fuel ⟨spaces (n + 1) ++ (inner ++ quote :: tail), _, _, _⟩ >>= _) = _
    rw [hGap]
    simp only [bind, Except.bind, hScan fuel (by simp; omega)]
    simp [Gap.text, Gap.none, spaces, Nat.add_assoc, Nat.add_comm 1]
  | @lineEnd word inner text bs b n hWord hBreaks hPos hStop _ ih =>
    obtain ⟨l', k', hLine, -, hScan⟩ := ih
      (i := i + byteLength (word.flatMap write) + byteLength (b :: bs) + n)
      (l := l + (b :: bs).length) (k := n) hPos
    refine ⟨l', k', by omega, fun h => ?_, fun fuel hFuel => ?_⟩
    · have := h b (by simp)
      rw [isBreak_of_isSeparator (hBreaks b (List.mem_cons_self ..))] at this
      exact absurd this (by decide)
    obtain ⟨fuel, rfl⟩ : ∃ m, fuel = m + 1 := ⟨fuel - 1, by omega⟩
    simp only [List.append_assoc, List.length_append, List.length_cons] at hFuel
    have hLength : (spaces n).length = n := List.length_replicate ..
    have hBreak : isSpaceOrBreak b = true := by
      rw [isSpaceOrBreak, isBreak_of_isSeparator (hBreaks b (List.mem_cons_self ..)), Bool.or_true]
    have hRun := quotedRun_word quote (b :: bs ++ (spaces n ++ (inner ++ quote :: tail))) word hWord
      (quotedRun_of_gap hBreak _)
    have hGap := Gap.scan_first_separator (n := n) (i := i + byteLength (word.flatMap write))
      (l := l) (k := k + (word.flatMap write).length) 0 fuel (hEnds.stopsGap hStop) hBreaks
      (by simp; omega)
    have hStep := scanQuoted_gap (i := i) (l := l) fuel hColumn hBreak hEnds.isSpaceOrBreak_eq_false
      hRun
    rw [List.append_assoc, List.append_assoc, List.append_assoc]
    refine hStep.trans ?_
    change (Gap.none.scan 0 fuel ⟨b :: bs ++ (spaces n ++ (inner ++ quote :: tail)), _, _, _⟩ >>=
      _) = _
    rw [hGap]
    simp only [bind, Except.bind, hScan fuel (by simp; omega), Gap.text_of_separators hBreaks]
    simp [spaces, Nat.add_assoc]

/-! ### Texts in double quotes -/

theorem doubleChar_starts {c : Char} (h : c ≠ ' ') :
    ∃ d r, doubleChar c = d :: r ∧ isSpaceOrBreak d = false := by
  cases hPlain : !isPrintable c || isBreak c || c == '"' || c == '\\' with
  | true => exact ⟨'\\', _, by rw [doubleChar, if_pos hPlain]; rfl, rfl⟩
  | false =>
    refine ⟨c, [], by rw [doubleChar, if_neg (by simp [hPlain])], ?_⟩
    simp only [Bool.or_eq_false_iff, Bool.not_eq_false'] at hPlain
    have hTab : c ≠ '\t' := by
      rintro rfl
      exact absurd hPlain.1.1.1 (by decide)
    simp [isSpaceOrBreak, isSpaceOrTab, hPlain.1.1.2, h, hTab]

/-- The inside of a text in double quotes stands for the text. -/
theorem quotedInner_double (cs : List Char) :
    QuotedInner '"' doubleChar (cs.flatMap doubleChar) cs := by
  by_cases hNonempty : cs = []
  · subst hNonempty
    exact QuotedInner.nil
  obtain ⟨word, n, rest, rfl, hWord, hRest, hLast, hLess⟩ := exists_word_spaces hNonempty
  have hRun : ∀ c ∈ word, ReadsRun '"' doubleChar c := fun c hc => readsRun_double (hWord c hc)
  cases n with
  | zero =>
    obtain rfl := hLast rfl
    simpa [spaces] using QuotedInner.last hRun
  | succ n =>
    have hSpaces : (spaces (n + 1)).flatMap doubleChar = spaces (n + 1) := by
      generalize n + 1 = m
      induction m with
      | zero => rfl
      | succ m ih => exact congrArg (' ' :: ·) ih
    have hStop : StopsGap (rest.flatMap doubleChar) := by
      intro c r hText
      cases rest with
      | nil => cases hText
      | cons d q =>
        obtain ⟨e, t, hChar, hStart⟩ := doubleChar_starts (hRest d q rfl)
        rw [List.flatMap_cons, hChar] at hText
        rw [← (List.cons.inj hText).1]
        exact hStart
    rw [List.flatMap_append, List.flatMap_append, hSpaces]
    exact .space n hRun hStop (quotedInner_double rest)
termination_by cs.length

/-! ### Texts in single quotes -/

section Neighbours

variable {p : Char → Char → Bool}

theorem hasNeighbours_cons {a b : Char} {r : List Char}
    (h : hasNeighbours p (a :: b :: r) = false) :
    p a b = false ∧ hasNeighbours p (b :: r) = false := by
  simpa [hasNeighbours] using h

theorem hasNeighbours_append_left {cs ds : List Char}
    (h : hasNeighbours p (cs ++ ds) = false) : hasNeighbours p cs = false := by
  induction cs with
  | nil => rfl
  | cons a cs ih =>
    cases cs with
    | nil => rfl
    | cons b cs =>
      obtain ⟨hPair, hRest⟩ := hasNeighbours_cons h
      rw [hasNeighbours, hPair, ih hRest]
      rfl

theorem hasNeighbours_append_right {cs ds : List Char}
    (h : hasNeighbours p (cs ++ ds) = false) : hasNeighbours p ds = false := by
  induction cs with
  | nil => exact h
  | cons a cs ih =>
    refine ih ?_
    cases hText : cs ++ ds with
    | nil => rfl
    | cons b r =>
      rw [List.cons_append, hText] at h
      exact (hasNeighbours_cons h).2

end Neighbours

/-- The texts that may stand in single quotes: every line end stands for itself, and no blank stands
at one. -/
structure ReadsSingle (cs : List Char) : Prop where
  separators : ∀ c ∈ cs, isBreak c = true → isSeparator c = true
  noTab : '\t' ∉ cs
  before : hasNeighbours (fun a b => a == ' ' && isBreak b) cs = false
  behind : hasNeighbours (fun a b => isBreak a && b == ' ') cs = false

theorem ReadsSingle.append {cs ds : List Char} (h : ReadsSingle (cs ++ ds)) :
    ReadsSingle cs ∧ ReadsSingle ds :=
  ⟨⟨fun c hc => h.separators c (List.mem_append_left _ hc),
    fun hc => h.noTab (List.mem_append_left _ hc), hasNeighbours_append_left h.before,
    hasNeighbours_append_left h.behind⟩,
   ⟨fun c hc => h.separators c (List.mem_append_right _ hc),
    fun hc => h.noTab (List.mem_append_right _ hc), hasNeighbours_append_right h.before,
    hasNeighbours_append_right h.behind⟩⟩

/-- A gap of such a text is made of spaces or of line ends. -/
theorem ReadsSingle.gap {gap : List Char} (h : ReadsSingle gap)
    (hGap : ∀ c ∈ gap, isSpaceOrBreak c = true) :
    (∀ c ∈ gap, c = ' ') ∨ ∀ c ∈ gap, isSeparator c = true := by
  induction gap with
  | nil => exact .inl (by simp)
  | cons a gap ih =>
    obtain ⟨ha, hGap⟩ := List.forall_mem_cons.1 hGap
    have hRest : ReadsSingle gap := (ReadsSingle.append (show ReadsSingle ([a] ++ gap) from h)).2
    have hFirst : a = ' ' ∨ isSeparator a = true := by
      have hTab : a ≠ '\t' := fun hEq => h.noTab (by simp [hEq])
      simp only [isSpaceOrBreak, isSpaceOrTab, Bool.or_eq_true, beq_iff_eq] at ha
      rcases ha with (ha | ha) | ha
      · exact .inl ha
      · exact absurd ha hTab
      · exact .inr (h.separators a (List.mem_cons_self ..) ha)
    cases gap with
    | nil => simpa using hFirst
    | cons b gap =>
      have hBefore := (hasNeighbours_cons h.before).1
      have hBehind := (hasNeighbours_cons h.behind).1
      rcases ih hRest hGap with hAll | hAll
      · obtain rfl := hAll b (List.mem_cons_self ..)
        refine .inl (List.forall_mem_cons.2 ⟨?_, hAll⟩)
        rcases hFirst with rfl | hFirst
        · rfl
        · simp [isBreak_of_isSeparator hFirst] at hBehind
      · refine .inr (List.forall_mem_cons.2 ⟨?_, hAll⟩)
        rcases hFirst with rfl | hFirst
        · simp [isBreak_of_isSeparator (hAll b (List.mem_cons_self ..))] at hBefore
        · exact hFirst

section Single

variable {indent : Nat}

theorem singleInner_append (indent : Nat) {word : List Char} (hWord : ∀ c ∈ word, isBreak c = false)
    (rest : List Char) :
    singleInner indent false (word ++ rest) =
      word.flatMap singleChar ++ singleInner indent false rest := by
  induction word with
  | nil => rfl
  | cons c word ih =>
    obtain ⟨hc, hWord⟩ := List.forall_mem_cons.1 hWord
    rw [List.cons_append, singleInner, if_neg (by simp [hc]), ih hWord]
    simp [singleChar]

theorem singleInner_breaks {bs : List Char} (hBreaks : ∀ c ∈ bs, isBreak c = true)
    (rest : List Char) :
    singleInner indent true (bs ++ rest) = bs ++ singleInner indent true rest := by
  induction bs with
  | nil => rfl
  | cons b bs ih =>
    obtain ⟨hb, hBreaks⟩ := List.forall_mem_cons.1 hBreaks
    rw [List.cons_append, singleInner, if_pos hb, ih hBreaks]
    rfl

theorem singleInner_indented {rest : List Char} (h : StopsGap rest) :
    singleInner indent true rest = spaces indent ++ singleInner indent false rest := by
  cases rest with
  | nil => simp [singleInner]
  | cons c r =>
    have hc := h c r rfl
    simp only [isSpaceOrBreak, isSpaceOrTab, Bool.or_eq_false_iff] at hc
    have hSpace : (c != ' ') = true := by simpa using hc.1.1
    simp [singleInner, hc.2, hSpace]

theorem stopsGap_singleInner {rest : List Char} (h : StopsGap rest) :
    StopsGap (singleInner indent false rest) := by
  intro c r hText
  cases rest with
  | nil => cases hText
  | cons d q =>
    have hd := h d q rfl
    have hBreak : isBreak d = false := by
      simp only [isSpaceOrBreak, Bool.or_eq_false_iff] at hd
      exact hd.2
    rw [singleInner, if_neg (by simp [hBreak])] at hText
    by_cases hQuote : d = '\''
    · subst hQuote
      rw [← (List.cons.inj hText).1]
      rfl
    · simp only [Bool.false_and, Bool.false_eq_true, if_false, beq_iff_eq, hQuote,
        List.nil_append, List.singleton_append, List.cons.injEq] at hText
      rw [← hText.1]
      exact hd

/-- The inside of a text in single quotes stands for the text. -/
theorem quotedInner_single (hIndent : 0 < indent) (cs : List Char) (h : ReadsSingle cs) :
    QuotedInner '\'' singleChar (singleInner indent false cs) cs := by
  by_cases hNonempty : cs = []
  · subst hNonempty
    exact QuotedInner.nil
  obtain ⟨word, gap, rest, rfl, hWord, hGap, hRest, hLast, hLess⟩ :=
    exists_word_gap isSpaceOrBreak hNonempty
  have hRun : ∀ c ∈ word, ReadsRun '\'' singleChar c := fun c hc => readsRun_single (hWord c hc)
  have hBreak : ∀ c ∈ word, isBreak c = false := by
    intro c hc
    have := hWord c hc
    simp only [isSpaceOrBreak, Bool.or_eq_false_iff] at this
    exact this.2
  obtain ⟨-, hBehind⟩ := h.append
  obtain ⟨hOfGap, hOfRest⟩ := hBehind.append
  have hInner := quotedInner_single hIndent rest hOfRest
  rw [singleInner_append _ hBreak]
  cases gap with
  | nil =>
    obtain rfl := hLast rfl
    simpa [singleInner] using QuotedInner.last hRun
  | cons b bs =>
    rcases hOfGap.gap hGap with hSpaces | hSeparators
    · have hText : b :: bs = spaces (bs.length + 1) :=
        List.eq_replicate_iff.2 ⟨rfl, hSpaces⟩
      have hWritten : ∀ n, (spaces n).flatMap singleChar = spaces n := by
        intro n
        induction n with
        | zero => rfl
        | succ n ih => exact congrArg (' ' :: ·) ih
      rw [hText, singleInner_append _ (by simp [spaces]; rfl), hWritten]
      exact .space _ hRun (stopsGap_singleInner hRest) hInner
    · have hBreaks : ∀ c ∈ b :: bs, isBreak c = true :=
        fun c hc => isBreak_of_isSeparator (hSeparators c hc)
      have hFirst : singleInner indent false (b :: bs ++ rest) =
          b :: bs ++ (spaces indent ++ singleInner indent false rest) := by
        rw [List.cons_append, singleInner, if_pos (hBreaks b (List.mem_cons_self ..)),
          singleInner_breaks fun c hc => hBreaks c (List.mem_cons_of_mem _ hc),
          singleInner_indented hRest]
        rfl
      rw [hFirst]
      exact .lineEnd hRun hSeparators hIndent (stopsGap_singleInner hRest) hInner
termination_by cs.length

end Single

end KubeCompose.Yaml
