import KubeCompose.Proofs.RoundTrip.Quoted

/-!
# Literal blocks that are read back

A literal block keeps its lines. It is read line by line, each with the line ends behind it; the
hints in front of it say how far it is indented when its first line does not, and which of the line
ends at its end belong to it.
-/

namespace KubeCompose.Yaml

/-- A line end of a text that may be a literal block. -/
def isPlainBreak (c : Char) : Bool := c == '\n' || isSeparator c

theorem isBreak_of_isPlainBreak {c : Char} (h : isPlainBreak c = true) : isBreak c = true := by
  simp only [isPlainBreak, isSeparator, Bool.or_eq_true, beq_iff_eq] at h
  rcases h with rfl | rfl | rfl <;> rfl

theorem ne_return_of_isPlainBreak {c : Char} (h : isPlainBreak c = true) : c ≠ '\r' := by
  rintro rfl
  exact absurd h (by decide)

theorem breakText_of_isPlainBreak {c : Char} (h : isPlainBreak c = true) (rest : List Char)
    (i l k : Nat) : (⟨c :: rest, i, l, k⟩ : Cursor).breakText = [c] := by
  simp only [isPlainBreak, isSeparator, Bool.or_eq_true, beq_iff_eq] at h
  rcases h with rfl | rfl | rfl <;> rfl

/-- What follows the line ends of a block, behind `k` spaces: with fewer than the block's `margin`
no further line, and with as many the text of one. -/
structure EndsLines (margin k : Nat) (rest : List Char) : Prop where
  column : k ≤ margin
  noBreak : ∀ c r, rest = c :: r → isBreak c = false
  noTab : ∀ c r, rest = c :: r → c ≠ '\t'
  noSpace : k < margin → ∀ c r, rest = c :: r → c ≠ ' '

theorem Cursor.advance_spaces (n : Nat) (rest : List Char) (i l k : Nat) :
    advance ⟨spaces n ++ rest, i, l, k⟩ n = ⟨rest, i + n, l, k + n⟩ := by
  have h := advance_append (spaces n) rest i l k
  rwa [spaces, List.length_replicate, byteLength_replicate] at h

section EmptyLines

variable {rest : List Char} {i l k margin : Nat}

theorem length_takeWhile_spaces (n : Nat) (rest : List Char) :
    ((spaces n ++ rest).takeWhile (· == ' ')).length =
      n + (rest.takeWhile (· == ' ')).length := by
  rw [spaces, List.takeWhile_append_of_pos (by simp)]
  simp

/-- The spaces in front of what follows are passed up to the margin. -/
theorem scanEmptyLines_end (h : EndsLines margin k rest) (widest fuel : Nat) :
    ∃ widest', scanEmptyLines (some margin) (fuel + 1) widest ⟨spaces k ++ rest, i, l, 0⟩ =
      .ok ([], widest', ⟨rest, i + k, l, k⟩) := by
  have hTaken : min ((spaces k ++ rest).takeWhile (· == ' ')).length (margin - 0) = k := by
    rw [length_takeWhile_spaces]
    rcases Nat.lt_or_ge k margin with hLess | hGe
    · have hNone : (rest.takeWhile (· == ' ')).length = 0 := by
        cases rest with
        | nil => rfl
        | cons c r =>
          have : (c == ' ') = false := by simpa using h.noSpace hLess c r rfl
          simp [this]
      omega
    · have := h.column
      omega
  rw [scanEmptyLines]
  simp only [hTaken, Cursor.advance_spaces, Nat.zero_add]
  cases rest with
  | nil => exact ⟨_, rfl⟩
  | cons c r =>
    have hTab : ¬ some c = some '\t' := by
      intro hEq
      exact h.noTab c r rfl (Option.some.inj hEq)
    have hBreak := h.noBreak c r rfl
    simp [Cursor.peek?, hTab, hBreak]

/-- Line ends in front of what follows are passed. -/
theorem scanEmptyLines_breaks (fuel : Nat) (h : EndsLines margin k rest) (bs : List Char)
    (hBreaks : ∀ b ∈ bs, isPlainBreak b = true) (widest : Nat) (hFuel : bs.length < fuel) :
    ∃ widest', scanEmptyLines (some margin) fuel widest ⟨bs ++ (spaces k ++ rest), i, l, 0⟩ =
      .ok (bs, widest', ⟨rest, i + byteLength bs + k, l + bs.length, k⟩) := by
  induction bs generalizing i l widest fuel with
  | nil =>
    obtain ⟨fuel, rfl⟩ : ∃ m, fuel = m + 1 := ⟨fuel - 1, by omega⟩
    exact scanEmptyLines_end h widest fuel
  | cons b bs ih =>
    obtain ⟨hb, hBreaks⟩ := List.forall_mem_cons.1 hBreaks
    rw [List.length_cons] at hFuel
    obtain ⟨fuel, rfl⟩ : ∃ m, fuel = m + 1 := ⟨fuel - 1, by omega⟩
    have hBreak := isBreak_of_isPlainBreak hb
    have hSpace : (b == ' ') = false := by
      cases hEq : b == ' ' with
      | false => rfl
      | true =>
        rw [beq_iff_eq] at hEq
        rw [hEq] at hb
        exact absurd hb (by decide)
    have hTab : ¬ some b = some '\t' := by
      rintro hEq
      rw [Option.some.inj hEq] at hb
      exact absurd hb (by decide)
    obtain ⟨widest', hRest⟩ := ih (i := i + b.utf8Size) (l := l + 1) fuel hBreaks (max widest 0)
      (by omega)
    refine ⟨widest', ?_⟩
    rw [List.cons_append, scanEmptyLines]
    simp only [List.takeWhile_cons, hSpace, Bool.false_eq_true, if_false, List.length_nil,
      Nat.zero_min, Cursor.advance_zero, Cursor.peek?, List.head?_cons, hTab, false_and,
      Option.any_some, hBreak, if_true,
      Cursor.nextLine_cons hBreak (ne_return_of_isPlainBreak hb), hRest, bind, Except.bind,
      breakText_of_isPlainBreak hb]
    simp [Nat.add_assoc, Nat.add_comm 1]

end EmptyLines

/-! ### Lines -/

/-- The line end that is written behind a text which has none. -/
def closing (cs : List Char) : List Char := if cs.getLast?.any isBreak then [] else ['\n']

theorem endLine_eq (cs : List Char) : endLine cs = cs ++ closing cs := by
  rw [endLine, closing]
  split <;> simp

theorem closing_append (cs : List Char) {ds : List Char} (h : ds ≠ []) :
    closing (cs ++ ds) = closing ds := by
  rw [closing, closing, List.getLast?_append, List.getLast?_eq_some_getLast h, Option.some_or]

/-- The texts that may be a literal block: every line end stands for itself, and no space stands
before one. -/
structure ReadsLiteral (cs : List Char) : Prop where
  breaks : ∀ c ∈ cs, isBreak c = true → isPlainBreak c = true
  noTab : '\t' ∉ cs

theorem ReadsLiteral.append {cs ds : List Char} (h : ReadsLiteral (cs ++ ds)) :
    ReadsLiteral cs ∧ ReadsLiteral ds :=
  ⟨⟨fun c hc => h.breaks c (List.mem_append_left _ hc),
    fun hc => h.noTab (List.mem_append_left _ hc)⟩,
   ⟨fun c hc => h.breaks c (List.mem_append_right _ hc),
    fun hc => h.noTab (List.mem_append_right _ hc)⟩⟩

section Written

variable {m : Nat}

theorem literalLines_line {line : List Char} (hLine : ∀ c ∈ line, isBreak c = false)
    (rest : List Char) :
    literalLines m false (line ++ rest) = line ++ literalLines m false rest := by
  induction line with
  | nil => rfl
  | cons c line ih =>
    obtain ⟨hc, hLine⟩ := List.forall_mem_cons.1 hLine
    rw [List.cons_append, literalLines, if_neg (by simp [hc]), ih hLine]
    rfl

theorem literalLines_breaks (start : Bool) {b : Char} {bs : List Char}
    (hBreaks : ∀ c ∈ b :: bs, isBreak c = true) (rest : List Char) :
    literalLines m start (b :: bs ++ rest) = b :: bs ++ literalLines m true rest := by
  induction bs generalizing b start with
  | nil =>
    rw [List.singleton_append, literalLines, if_pos (hBreaks b (List.mem_cons_self ..))]
    rfl
  | cons d bs ih =>
    obtain ⟨hb, hBreaks⟩ := List.forall_mem_cons.1 hBreaks
    rw [List.cons_append, literalLines, if_pos hb, ih _ hBreaks]
    rfl

theorem literalLines_indented {c : Char} {r : List Char} (h : isBreak c = false) :
    literalLines m true (c :: r) = spaces m ++ literalLines m false (c :: r) := by
  simp [literalLines, h]

theorem literalLines_start {bs : List Char} {c : Char} {r : List Char}
    (hBreaks : ∀ b ∈ bs, isBreak b = true) (hc : isBreak c = false) :
    literalLines m true (bs ++ c :: r) = bs ++ (spaces m ++ literalLines m false (c :: r)) := by
  cases bs with
  | nil => exact literalLines_indented hc
  | cons b bs => rw [literalLines_breaks _ hBreaks, literalLines_indented hc]

end Written

section Lines

variable {m k : Nat} {next : List Char}

/-- A block ends left of its margin. -/
theorem scanBlockLines_end (h : k < m) (fuel : Nat) (lineBreak emptyLines : List Char)
    (afterBlank : Bool) (i l : Nat) :
    scanBlockLines true m fuel lineBreak emptyLines afterBlank ⟨next, i, l, k⟩ =
      .ok ([], lineBreak, emptyLines, ⟨next, i, l, k⟩) := by
  cases fuel with
  | zero => rfl
  | succ fuel =>
    have hColumn : ¬ (k = m ∧ !next.isEmpty) := by
      rintro ⟨hEq, -⟩
      omega
    rw [scanBlockLines]
    simp only [hColumn, if_false]

/-- A line of a block is read with the line ends behind it. -/
theorem scanBlockLines_line (bs : List Char) {line : List Char} {b : Char} {rest : List Char}
    {j : Nat} (hLine : ∀ c ∈ line, isBreak c = false)
    (hBreaks : ∀ c ∈ b :: bs, isPlainBreak c = true) (hEnds : EndsLines m j rest) (i l : Nat) :
    ∃ i' l' blank, ∀ fuel lineBreak emptyLines afterBlank, bs.length < fuel →
      scanBlockLines true m (fuel + 1) lineBreak emptyLines afterBlank
          ⟨line ++ b :: (bs ++ (spaces j ++ rest)), i, l, m⟩ =
        (scanBlockLines true m fuel [b] bs blank ⟨rest, i', l', j⟩).map
          fun r => (lineBreak ++ emptyLines ++ line ++ r.1, r.2) := by
  obtain ⟨hb, hBreaks⟩ := List.forall_mem_cons.1 hBreaks
  have hBreak := isBreak_of_isPlainBreak hb
  have hHere : m = m ∧ (!(line ++ b :: (bs ++ (spaces j ++ rest))).isEmpty) = true := by
    simp
  have hContent : (line ++ b :: (bs ++ (spaces j ++ rest))).takeWhile (!isBreak ·) = line := by
    rw [List.takeWhile_append_of_pos (by simpa using hLine)]
    simp [hBreak]
  refine ⟨i + byteLength line + b.utf8Size + byteLength bs + j, l + 1 + bs.length,
    (line ++ b :: (bs ++ (spaces j ++ rest))).head?.any isSpaceOrTab, ?_⟩
  intro fuel lineBreak emptyLines afterBlank hFuel
  obtain ⟨widest, hEmpty⟩ := scanEmptyLines_breaks _ hEnds bs hBreaks 0 hFuel
    (i := i + byteLength line + b.utf8Size) (l := l + 1)
  rw [scanBlockLines]
  simp only [hHere, and_self, if_true, hContent, Cursor.advance_append, Bool.not_true,
    Bool.false_and, Bool.false_eq_true, if_false, breakText_of_isPlainBreak hb,
    Cursor.nextLine_cons hBreak (ne_return_of_isPlainBreak hb), hEmpty, bind, Except.bind]
  cases scanBlockLines true m fuel [b] bs _ _ <;> rfl

/-- A line of a text stands at the margin. -/
theorem endsLines_text {c : Char} {r : List Char} (h : ReadsLiteral (c :: r))
    (hc : isBreak c = false) (rest : List Char) :
    EndsLines m m (literalLines m false (c :: r) ++ rest) := by
  have hHead : literalLines m false (c :: r) = c :: literalLines m false r := by
    simp [literalLines, hc]
  have hTab : c ≠ '\t' := by
    rintro rfl
    exact h.noTab (List.mem_cons_self ..)
  rw [hHead]
  constructor
  · exact Nat.le_refl m
  · rintro d q hText
    rw [← (List.cons.inj hText).1]
    exact hc
  · rintro d q hText
    rw [← (List.cons.inj hText).1]
    exact hTab
  · exact fun hSelf => absurd hSelf (Nat.lt_irrefl m)

/-- The lines of a text are read up to its last, with the line ends that follow. -/
theorem scanBlockLines_text (hEnds : EndsLines m k next) (hLess : k < m) (cs : List Char)
    (h : ReadsLiteral cs) (hNonempty : cs ≠ []) (hStart : cs.head?.any isBreak = false)
    (i l : Nat) :
    ∃ text b bs i' l', (∀ c ∈ b :: bs, isBreak c = true) ∧ text ++ b :: bs = cs ++ closing cs ∧
      ∀ fuel lineBreak emptyLines afterBlank,
        (literalLines m false cs ++ (closing cs ++ (spaces k ++ next))).length < fuel →
        scanBlockLines true m fuel lineBreak emptyLines afterBlank
            ⟨literalLines m false cs ++ (closing cs ++ (spaces k ++ next)), i, l, m⟩ =
          .ok (lineBreak ++ emptyLines ++ text, [b], bs, ⟨next, i', l', k⟩) := by
  obtain ⟨line, bs, rest, rfl, hLine, hBreaks, hRest, hLast, hShorter⟩ :=
    exists_word_gap isBreak hNonempty
  have hNe : line ≠ [] := by
    rintro rfl
    cases bs with
    | nil => exact hNonempty (by simp [hLast rfl])
    | cons b bs => simp [hBreaks b (List.mem_cons_self ..)] at hStart
  have hPos : 0 < line.length := List.length_pos_iff.2 hNe
  rw [literalLines_line hLine]
  cases bs with
  | nil =>
    obtain rfl := hLast rfl
    have hClosing : closing (line ++ ([] ++ [])) = ['\n'] := by
      rw [closing, if_neg]
      rw [List.append_nil, List.append_nil]
      cases hEnd : line.getLast? with
      | none => simp
      | some c => simpa using hLine c (List.mem_of_getLast? hEnd)
    obtain ⟨i', l', blank, hStep⟩ := scanBlockLines_line (b := '\n') [] hLine
      (by simp [isPlainBreak]) hEnds i l
    rw [hClosing]
    refine ⟨line, '\n', [], i', l', by simp; rfl, by simp, ?_⟩
    intro fuel lineBreak emptyLines afterBlank hFuel
    obtain ⟨fuel, rfl⟩ : ∃ n, fuel = n + 1 := ⟨fuel - 1, by omega⟩
    have hRead := hStep fuel lineBreak emptyLines afterBlank (by simp at hFuel ⊢; omega)
    simp only [literalLines, List.append_assoc, List.nil_append, List.singleton_append] at hRead ⊢
    rw [hRead, scanBlockLines_end hLess]
    simp [Except.map]
  | cons b bs =>
    have hPlain : ∀ c ∈ b :: bs, isPlainBreak c = true :=
      fun c hc => h.append.2.append.1.breaks c hc (hBreaks c hc)
    rw [literalLines_breaks _ hBreaks]
    cases rest with
    | nil =>
      have hClosing : closing (line ++ (b :: bs ++ [])) = [] := by
        rw [closing_append _ (by simp), List.append_nil, closing, if_pos]
        cases hEnd : (b :: bs).getLast? with
        | none => simp at hEnd
        | some c => simpa using hBreaks c (List.mem_of_getLast? hEnd)
      obtain ⟨i', l', blank, hStep⟩ := scanBlockLines_line _ hLine hPlain hEnds i l
      rw [hClosing]
      refine ⟨line, b, bs, i', l', hBreaks, by simp, ?_⟩
      intro fuel lineBreak emptyLines afterBlank hFuel
      obtain ⟨fuel, rfl⟩ : ∃ n, fuel = n + 1 := ⟨fuel - 1, by omega⟩
      have hRead := hStep fuel lineBreak emptyLines afterBlank (by simp at hFuel ⊢; omega)
      simp only [literalLines, List.append_assoc, List.nil_append, List.cons_append] at hRead ⊢
      rw [hRead, scanBlockLines_end hLess]
      simp [Except.map]
    | cons c r =>
      have hc : isBreak c = false := hRest c r rfl
      have hClosing : closing (line ++ (b :: bs ++ c :: r)) = closing (c :: r) := by
        rw [closing_append _ (by simp), closing_append _ (by simp)]
      have hOfRest : ReadsLiteral (c :: r) := h.append.2.append.2
      have hNext : EndsLines m m
          (literalLines m false (c :: r) ++ (closing (c :: r) ++ (spaces k ++ next))) :=
        endsLines_text hOfRest hc _
      obtain ⟨i₁, l₁, blank, hStep⟩ := scanBlockLines_line _ hLine hPlain hNext i l
      obtain ⟨text, d, ds, i', l', hEndBreaks, hText, hScan⟩ :=
        scanBlockLines_text hEnds hLess (c :: r) hOfRest (by simp) (by simp [hc]) i₁ l₁
      rw [literalLines_indented hc, hClosing]
      refine ⟨line ++ b :: bs ++ text, d, ds, i', l', hEndBreaks, by simp [hText], ?_⟩
      intro fuel lineBreak emptyLines afterBlank hFuel
      obtain ⟨fuel, rfl⟩ : ∃ n, fuel = n + 1 := ⟨fuel - 1, by omega⟩
      have hRead := hStep fuel lineBreak emptyLines afterBlank (by simp at hFuel ⊢; omega)
      have hMore := hScan fuel [b] bs blank (by simp at hFuel ⊢; omega)
      simp only [List.append_assoc, List.cons_append] at hRead hMore ⊢
      rw [hRead, hMore]
      simp [Except.map]
termination_by cs.length

end Lines

/-! ### The end of a block -/

/-- What the hints of a block say about its end. -/
def chompOf (cs : List Char) : Chomp :=
  match cs.reverse with
  | a :: b :: _ => if !isBreak a then .strip else if isBreak b then .keep else .clip
  | [a] => if isBreak a then .keep else .strip
  | [] => .strip

/-- The mark of the treatment of a block's end. -/
def chompMark : Chomp → List Char
  | .strip => ['-']
  | .clip => []
  | .keep => ['+']

/-- Whether the hints of a block say how far it is indented. -/
def isHinted (cs : List Char) : Bool := cs.head?.any fun c => c == ' ' || isBreak c

theorem literalHints_eq (cs : List Char) :
    literalHints cs = (if isHinted cs then ['2'] else []) ++ chompMark (chompOf cs) := by
  rw [literalHints, chompOf, isHinted]
  congr 1
  rcases cs.reverse with _ | ⟨a, _ | ⟨b, r⟩⟩
  · rfl
  · cases h : isBreak a <;> simp [h, chompMark]
  · cases h : isBreak a <;> cases h' : isBreak b <;> simp [h, h', chompMark]

theorem scanBlockHints_eq (hinted : Bool) (chomp : Chomp) (rest : List Char) (i l k : Nat) :
    ∃ i' k', scanBlockHints
        ⟨(if hinted then ['2'] else []) ++ chompMark chomp ++ '\n' :: rest, i, l, k⟩ =
      .ok (chomp, if hinted then some 2 else none, ⟨'\n' :: rest, i', l, k'⟩) := by
  cases hinted <;> cases chomp <;> exact ⟨_, _, rfl⟩

/-- A single line end behind a text that does not end with one. -/
theorem eq_of_append_breaks {text bs ys : List Char} {b y z : Char}
    (hBreaks : ∀ c ∈ b :: bs, isBreak c = true) (h : text ++ b :: bs = ys ++ [y])
    (hLast : ys.getLast? = some z) (hz : isBreak z = false) : text = ys ∧ b = y ∧ bs = [] := by
  rcases List.eq_nil_or_concat bs with rfl | ⟨ds, d, rfl⟩
  · obtain ⟨hText, hb⟩ := List.append_inj' h rfl
    exact ⟨hText, (List.cons.inj hb).1, rfl⟩
  · have hInit : text ++ b :: ds = ys := by
      have hEnds : (text ++ b :: ds) ++ [d] = ys ++ [y] := by simpa using h
      exact (List.append_inj' hEnds rfl).1
    have hMem : z ∈ b :: ds := by
      rw [← hInit, List.getLast?_append, List.getLast?_eq_some_getLast (by simp),
        Option.some_or, Option.some.injEq] at hLast
      rw [← hLast]
      exact List.getLast_mem _
    have := hBreaks z (by simp at hMem ⊢; rcases hMem with h | h <;> simp [h])
    rw [hz] at this
    exact absurd this (by decide)

/-- What belongs to a block of the line ends behind it. -/
def chompTail (chomp : Chomp) (lineBreak emptyLines : List Char) : List Char :=
  match chomp with
  | .strip => []
  | .clip => lineBreak
  | .keep => lineBreak ++ emptyLines

/-- The hints keep of the line ends behind a text those that belong to it. -/
theorem append_chompTail {cs text bs : List Char} {b : Char} (hNonempty : cs ≠ [])
    (hBreaks : ∀ c ∈ b :: bs, isBreak c = true) (h : text ++ b :: bs = cs ++ closing cs) :
    text ++ chompTail (chompOf cs) [b] bs = cs := by
  obtain ⟨ys, a, rfl⟩ : ∃ ys a, cs = ys ++ [a] := by
    rcases List.eq_nil_or_concat cs with rfl | ⟨ys, a, rfl⟩
    · exact absurd rfl hNonempty
    · exact ⟨ys, a, List.concat_eq_append ..⟩
  cases ha : isBreak a with
  | false =>
    have hClosing : closing (ys ++ [a]) = ['\n'] := by simp [closing, ha]
    have hChomp : chompOf (ys ++ [a]) = .strip := by
      rw [chompOf, List.reverse_append]
      cases ys.reverse <;> simp [ha]
    rw [hClosing] at h
    obtain ⟨rfl, -, -⟩ := eq_of_append_breaks hBreaks h (by simp) ha
    simp [hChomp, chompTail]
  | true =>
    have hClosing : closing (ys ++ [a]) = [] := by simp [closing, ha]
    rw [hClosing, List.append_nil] at h
    rcases List.eq_nil_or_concat ys with rfl | ⟨zs, z, rfl⟩
    · have hChomp : chompOf ([] ++ [a]) = .keep := by simp [chompOf, ha]
      rw [hChomp, ← h]
      rfl
    · rw [List.concat_eq_append] at h ⊢
      cases hz : isBreak z with
      | true =>
        have hChomp : chompOf (zs ++ [z] ++ [a]) = .keep := by simp [chompOf, ha, hz]
        rw [hChomp, ← h]
        rfl
      | false =>
        have hChomp : chompOf (zs ++ [z] ++ [a]) = .clip := by simp [chompOf, ha, hz]
        obtain ⟨rfl, rfl, -⟩ := eq_of_append_breaks hBreaks h (by simp) hz
        rw [hChomp]
        rfl

/-! ### Blocks -/

section Blocks

variable {m k : Nat} {next : List Char}

/-- A text of nothing but line ends keeps them. -/
theorem chompOf_breaks {cs : List Char} (hNonempty : cs ≠ [])
    (hBreaks : ∀ c ∈ cs, isBreak c = true) : chompOf cs = .keep := by
  have hAll : ∀ c ∈ cs.reverse, isBreak c = true := fun c hc => hBreaks c (List.mem_reverse.1 hc)
  have hSome : cs.reverse ≠ [] := by simpa using hNonempty
  rw [chompOf]
  revert hAll hSome
  rcases cs.reverse with _ | ⟨a, _ | ⟨b, r⟩⟩
  · simp
  · intro hAll _
    simp [hAll a (by simp)]
  · intro hAll _
    simp [hAll a (by simp), hAll b (by simp)]

/-- The indentation of the first line of a text is that of its block, unless the header says so. -/
theorem scanEmptyLines_first {c : Char} (hBreak : isBreak c = false) (hSpace : c ≠ ' ')
    (hTab : c ≠ '\t') (rest : List Char) (i l fuel : Nat) :
    scanEmptyLines none (fuel + 1) 0 ⟨spaces m ++ c :: rest, i, l, 0⟩ =
      .ok ([], m, ⟨c :: rest, i + m, l, m⟩) := by
  have hNone : ((c :: rest).takeWhile (· == ' ')).length = 0 := by simp [hSpace]
  have hNotTab : ¬ some c = some '\t' := fun hEq => hTab (Option.some.inj hEq)
  rw [scanEmptyLines]
  simp only [length_takeWhile_spaces, hNone, Nat.add_zero, Cursor.advance_spaces, Nat.zero_add,
    Nat.zero_max, Cursor.peek?, List.head?_cons, hNotTab, false_and, if_false, Option.any_some,
    hBreak, Bool.false_eq_true]

/-- The lines of a text are read behind its header, whose hints say how far it is indented or leave
it to the first line. -/
theorem scanBlockLines_behind_header (least : Nat) (hEnds : EndsLines m k next) (hLess : k < m)
    {cs : List Char} (h : ReadsLiteral cs) (hNonempty : cs ≠ []) (hLeast : least ≤ m) (i l : Nat) :
    ∃ i' l', ∀ fuel,
      (literalLines m true cs ++ (closing cs ++ (spaces k ++ next))).length < fuel →
      ∃ emptyLines widest c text lineBreak breaks,
        scanEmptyLines (if isHinted cs then some m else none) fuel 0
            ⟨literalLines m true cs ++ (closing cs ++ (spaces k ++ next)), i, l, 0⟩ =
          .ok (emptyLines, widest, c) ∧
        scanBlockLines true ((if isHinted cs then some m else none).getD (max widest least)) fuel []
            emptyLines false c =
          .ok (text, lineBreak, breaks, ⟨next, i', l', k⟩) ∧
        text ++ chompTail (chompOf cs) lineBreak breaks = cs := by
  obtain ⟨bs, rest, rfl, hBreaks, hRest⟩ : ∃ bs rest, cs = bs ++ rest ∧
      (∀ c ∈ bs, isBreak c = true) ∧ ∀ c r, rest = c :: r → isBreak c = false := by
    refine ⟨cs.takeWhile isBreak, cs.dropWhile isBreak, by simp, ?_, ?_⟩
    · exact fun c hc => List.all_eq_true.1 List.all_takeWhile c hc
    · intro c r hText
      simpa [hText] using List.head?_dropWhile_not isBreak cs
  obtain ⟨hOfBreaks, hOfRest⟩ := h.append
  have hPlain : ∀ c ∈ bs, isPlainBreak c = true := fun c hc => hOfBreaks.breaks c hc (hBreaks c hc)
  cases rest with
  | nil =>
    simp only [List.append_nil] at *
    obtain ⟨b, q, hText⟩ := List.exists_cons_of_ne_nil hNonempty
    have hHint : isHinted bs = true := by
      simp [isHinted, hText, hBreaks b (by simp [hText])]
    have hClosing : closing bs = [] := by
      rw [closing, List.getLast?_eq_some_getLast hNonempty]
      simp [hBreaks _ (List.getLast_mem hNonempty)]
    have hLines : literalLines m true bs = bs := by
      have := literalLines_breaks (m := m) true (hText ▸ hBreaks) []
      rwa [List.append_nil, ← hText, literalLines, List.append_nil] at this
    rw [hLines, hClosing]
    refine ⟨i + byteLength bs + k, l + bs.length, fun fuel hFuel => ?_⟩
    obtain ⟨widest, hEmpty⟩ := scanEmptyLines_breaks (i := i) (l := l) fuel hEnds bs hPlain 0
      (by simp at hFuel; omega)
    rw [if_pos hHint]
    exact ⟨bs, widest, _, [], [], bs, hEmpty, scanBlockLines_end hLess .., by
      simp [chompOf_breaks hNonempty hBreaks, chompTail]⟩
  | cons c r =>
    have hc : isBreak c = false := hRest c r rfl
    have hLines := literalLines_start (m := m) (r := r) hBreaks hc
    have hClosing : closing (bs ++ c :: r) = closing (c :: r) := closing_append bs (by simp)
    obtain ⟨text, b, ds, i', l', hEndBreaks, hSplit, hScan⟩ :=
      scanBlockLines_text hEnds hLess (c :: r) hOfRest (by simp) (by simp [hc])
        (i + byteLength bs + m) (l + bs.length)
    rw [hLines, hClosing, List.append_assoc, List.append_assoc]
    refine ⟨i', l', fun fuel hFuel => ?_⟩
    have hText := fun emptyLines => hScan fuel [] emptyLines false (by simp at hFuel ⊢; omega)
    cases hHint : isHinted (bs ++ c :: r) with
    | true =>
      obtain ⟨widest, hEmpty⟩ := scanEmptyLines_breaks (i := i) (l := l) fuel
        (endsLines_text (m := m) hOfRest hc (closing (c :: r) ++ (spaces k ++ next))) bs hPlain 0
        (by simp at hFuel; omega)
      refine ⟨bs, widest, _, _, [b], ds, hEmpty, hText bs, ?_⟩
      refine append_chompTail hNonempty hEndBreaks ?_
      rw [List.nil_append, List.append_assoc, hSplit, hClosing, List.append_assoc]
    | false =>
      obtain rfl : bs = [] := by
        cases bs with
        | nil => rfl
        | cons b bs => simp [isHinted, hBreaks b (List.mem_cons_self ..)] at hHint
      have hSpace : c ≠ ' ' := by
        rintro rfl
        exact absurd hHint (by simp [isHinted])
      have hTab : c ≠ '\t' := by
        rintro rfl
        exact hOfRest.noTab (List.mem_cons_self ..)
      obtain ⟨fuel, rfl⟩ : ∃ n, fuel = n + 1 := ⟨fuel - 1, by omega⟩
      have hMargin : max m least = m := Nat.max_eq_left hLeast
      have hHead : literalLines m false (c :: r) = c :: literalLines m false r := by
        simp [literalLines, hc]
      refine ⟨[], m, ⟨literalLines m false (c :: r) ++ (closing (c :: r) ++ (spaces k ++ next)),
        i + m, l, m⟩, text, [b], ds, ?_, ?_, ?_⟩
      · simp only [Bool.false_eq_true, if_false, hHead, List.nil_append, List.cons_append]
        exact scanEmptyLines_first hc hSpace hTab _ i l fuel
      · simp only [Bool.false_eq_true, if_false, Option.getD_none, hMargin]
        exact hText []
      · exact append_chompTail hNonempty hEndBreaks hSplit

/-- A literal block is read up to the next token. -/
theorem scanBlock_literal (hEnds : EndsLines m k next) (hLess : k < m) {cs : List Char}
    (h : ReadsLiteral cs) (hNonempty : cs ≠ []) {indent : Int} (hMargin : m = indent.toNat + 2)
    (i l c : Nat) :
    ∃ i' l', ∀ fuel,
      (literalLines m true cs ++ (closing cs ++ (spaces k ++ next))).length < fuel →
      scanBlock true indent fuel ⟨literalHints cs ++ '\n' ::
          (literalLines m true cs ++ (closing cs ++ (spaces k ++ next))), i, l, c⟩ =
        .ok (cs, ⟨next, i', l', k⟩) := by
  obtain ⟨i₁, c₁, hHints⟩ := scanBlockHints_eq (isHinted cs) (chompOf cs)
    (literalLines m true cs ++ (closing cs ++ (spaces k ++ next))) i l c
  rw [← literalHints_eq] at hHints
  have hNext := Cursor.nextLine_cons (b := '\n') rfl (by decide)
    (literalLines m true cs ++ (closing cs ++ (spaces k ++ next))) i₁ l c₁
  have hColumns : ((if isHinted cs then some 2 else none).map fun n => indent.toNat + n) =
      if isHinted cs then some m else none := by
    cases isHinted cs <;> simp [hMargin]
  obtain ⟨i', l', hLines⟩ := scanBlockLines_behind_header (max (indent + 1).toNat 1) hEnds hLess h
    hNonempty (by omega) (i₁ + '\n'.utf8Size) (l + 1)
  refine ⟨i', l', fun fuel hFuel => ?_⟩
  obtain ⟨emptyLines, widest, c', text, lineBreak, breaks, hEmpty, hLines, hText⟩ :=
    hLines fuel hFuel
  rw [scanBlock, hHints]
  have hBlank : (Cursor.advanceWhile ⟨'\n' :: (literalLines m true cs ++
      (closing cs ++ (spaces k ++ next))), i₁, l, c₁⟩ isSpaceOrTab).skipComment =
      ⟨'\n' :: (literalLines m true cs ++ (closing cs ++ (spaces k ++ next))), i₁, l, c₁⟩ := rfl
  have hEnd : endsLine ('\n' :: (literalLines m true cs ++ (closing cs ++ (spaces k ++ next)))) =
      true := rfl
  simp only [bind, Except.bind, hBlank, hEnd, Bool.not_true, Bool.false_eq_true, if_false, hNext,
    hColumns, hEmpty, hLines]
  exact congrArg (fun text => Except.ok (text, (⟨next, i', l', k⟩ : Cursor))) hText

end Blocks

end KubeCompose.Yaml
