import KubeCompose.Text.Blank
import KubeCompose.Text.Fields
import Mathlib.Data.List.TakeWhile

/-!
# Laws of cutting and trimming

What a cut at a separator says about the text that was cut, and what is left when a tail is
dropped. Both are stated on lists of characters, where the functions are defined.
-/

namespace KubeCompose.Text

section DropTrailing

variable {α : Type} {p : α → Bool} {cs tail : List α} {c : α}

/-- What is left does not end in a dropped character. -/
theorem getLast?_dropTrailing (h : (dropTrailing p cs).getLast? = some c) : p c = false := by
  induction cs with
  | nil => simp [dropTrailing] at h
  | cons d r ih =>
    rw [dropTrailing] at h
    split at h
    · split at h
      · simp at h
      · rename_i hd
        simp only [List.getLast?_singleton, Option.some.injEq] at h
        subst h
        simpa using hd
    · rename_i e s hs
      rw [List.getLast?_cons_cons] at h
      exact ih (hs ▸ h)

/-- A text that does not end in a dropped character stays as it is. -/
theorem dropTrailing_eq_self (h : ∀ c, cs.getLast? = some c → p c = false) :
    dropTrailing p cs = cs := by
  induction cs with
  | nil => rfl
  | cons d r ih =>
    cases r with
    | nil =>
      have hd : p d = false := h d (by simp)
      simp [dropTrailing, hd]
    | cons e s =>
      have hr : dropTrailing p (e :: s) = e :: s := ih fun c hc => h c (by simpa using hc)
      rw [dropTrailing, hr]

/-- What is dropped stands at the end and is all to be dropped. -/
theorem exists_append_dropTrailing (p : α → Bool) (cs : List α) :
    ∃ tail, cs = dropTrailing p cs ++ tail ∧ ∀ c ∈ tail, p c = true := by
  induction cs with
  | nil => exact ⟨[], rfl, by simp⟩
  | cons d r ih =>
    obtain ⟨tail, hTail, hAll⟩ := ih
    rw [dropTrailing]
    split
    · rename_i hNil
      rw [hNil, List.nil_append] at hTail
      split
      · rename_i hd
        exact ⟨d :: r, rfl, List.forall_mem_cons.2 ⟨hd, hTail ▸ hAll⟩⟩
      · exact ⟨r, rfl, hTail ▸ hAll⟩
    · rename_i e s hs
      rw [hs] at hTail
      exact ⟨tail, by rw [hTail, List.cons_append, List.cons_append, List.cons_append], hAll⟩

theorem dropTrailing_cons_of_neg (h : p c = false) (cs : List α) :
    dropTrailing p (c :: cs) = c :: dropTrailing p cs := by
  rw [dropTrailing]
  cases dropTrailing p cs with
  | nil => simp [h]
  | cons d r => rfl

theorem dropTrailing_cons_of_pos (h : p c = true) (cs : List α) :
    dropTrailing p (c :: cs) = if dropTrailing p cs = [] then [] else c :: dropTrailing p cs := by
  rw [dropTrailing]
  cases dropTrailing p cs with
  | nil => simp [h]
  | cons d r => simp

/-- Nothing is dropped in front of a character that is kept. -/
theorem dropTrailing_append_cons (h : p c = false) (before after : List α) :
    dropTrailing p (before ++ c :: after) = before ++ c :: dropTrailing p after := by
  induction before with
  | nil => exact dropTrailing_cons_of_neg h after
  | cons d r ih =>
    rw [List.cons_append, dropTrailing, ih]
    cases r <;> rfl

/-- Nothing is dropped in front of a part whose last element is kept. -/
theorem dropTrailing_append_of_getLast? (h : ∀ c, cs.getLast? = some c → p c = false)
    (tail : List α) : dropTrailing p (cs ++ tail) = cs ++ dropTrailing p tail := by
  rcases List.eq_nil_or_concat cs with rfl | ⟨before, c, rfl⟩
  · rfl
  · have hLast : p c = false := h c (by simp)
    simp only [List.concat_eq_append, List.append_assoc, List.singleton_append]
    exact dropTrailing_append_cons hLast before tail

theorem dropTrailing_append (h : ∀ c ∈ tail, p c = true) :
    dropTrailing p (cs ++ tail) = dropTrailing p cs := by
  induction cs with
  | nil =>
    induction tail with
    | nil => rfl
    | cons c r ih =>
      obtain ⟨hc, hr⟩ := List.forall_mem_cons.1 h
      rw [List.nil_append, dropTrailing_cons_of_pos hc]
      exact if_pos (ih hr)
  | cons c r ih => rw [List.cons_append, dropTrailing, ih, dropTrailing]

/-- A tail can as well be dropped before the text is cut. -/
theorem dropTrailing_take_dropTrailing (n : Nat) :
    dropTrailing p ((dropTrailing p cs).take n) = dropTrailing p (cs.take n) := by
  obtain ⟨tail, hTail, hAll⟩ := exists_append_dropTrailing p cs
  have hCut : ∀ c ∈ tail.take (n - (dropTrailing p cs).length), p c = true :=
    fun c hc => hAll c (List.mem_of_mem_take hc)
  calc dropTrailing p ((dropTrailing p cs).take n)
      = dropTrailing p ((dropTrailing p cs ++ tail).take n) := by
        rw [List.take_append, dropTrailing_append hCut]
    _ = dropTrailing p (cs.take n) := by rw [← hTail]

end DropTrailing

section Trim

variable {before cs after : List Char} {c : Char}

theorem mem_of_mem_trimStart (h : c ∈ trimStart cs) : c ∈ cs :=
  (List.dropWhile_suffix isBlank).subset h

theorem mem_of_mem_trimEnd (h : c ∈ trimEnd cs) : c ∈ cs := by
  obtain ⟨tail, hText, -⟩ := exists_append_dropTrailing isBlank cs
  rw [hText]
  exact List.mem_append_left tail h

theorem mem_of_mem_trim (h : c ∈ trim cs) : c ∈ cs :=
  mem_of_mem_trimStart (mem_of_mem_trimEnd h)

/-- A trimmed text does not begin with white space. -/
theorem isBlank_of_head?_trim (h : (trim cs).head? = some c) : isBlank c = false := by
  obtain ⟨tail, hTail, -⟩ := exists_append_dropTrailing isBlank (trimStart cs)
  obtain ⟨r, hText⟩ := List.head?_eq_some_iff.1 h
  have hHead : (cs.dropWhile isBlank).head? = some c := by
    show (trimStart cs).head? = some c
    rw [hTail]
    show (trim cs ++ tail).head? = some c
    rw [hText, List.cons_append, List.head?_cons]
  have hNot := List.head?_dropWhile_not isBlank cs
  rw [hHead] at hNot
  exact hNot

/-- White space in front of a text is trimmed. -/
theorem trim_append_left (h : ∀ c ∈ before, isBlank c = true) (cs : List Char) :
    trim (before ++ cs) = trim cs := by
  unfold trim trimStart
  rw [List.dropWhile_append_of_pos h]

/-- White space behind a text is trimmed. -/
theorem trim_append_right (h : ∀ c ∈ after, isBlank c = true) (cs : List Char) :
    trim (cs ++ after) = trim cs := by
  have hNothing : after.dropWhile isBlank = [] := by
    rw [← List.append_nil after, List.dropWhile_append_of_pos h, List.dropWhile_nil]
  unfold trim trimEnd trimStart
  rw [List.dropWhile_append]
  split
  · rename_i hNone
    rw [List.isEmpty_iff.1 hNone, hNothing]
  · exact dropTrailing_append h

/-- Another character is trimmed neither in front nor behind. -/
theorem trim_cons (h : isBlank c = false) (cs : List Char) : trim (c :: cs) = c :: trimEnd cs := by
  unfold trim trimStart
  rw [List.dropWhile_cons_of_neg (by simp [h])]
  exact dropTrailing_cons_of_neg h cs

theorem trim_trimStart (cs : List Char) : trim (trimStart cs) = trim cs := by
  have hText : cs = cs.takeWhile isBlank ++ trimStart cs := List.takeWhile_append_dropWhile.symm
  have hBlank : ∀ c ∈ cs.takeWhile isBlank, isBlank c = true := fun c hc =>
    List.mem_takeWhile_imp hc
  calc trim (trimStart cs)
      = trim (cs.takeWhile isBlank ++ trimStart cs) := (trim_append_left hBlank _).symm
    _ = trim cs := by rw [← hText]

theorem trim_trimEnd (cs : List Char) : trim (trimEnd cs) = trim cs := by
  obtain ⟨tail, hText, hBlank⟩ := exists_append_dropTrailing isBlank cs
  calc trim (trimEnd cs)
      = trim (trimEnd cs ++ tail) := (trim_append_right hBlank _).symm
    _ = trim cs := by rw [trimEnd, ← hText]

/-- Another character divides a text into what is trimmed in front and what is trimmed behind. -/
theorem trim_append_cons (h : isBlank c = false) (before after : List Char) :
    trim (before ++ c :: after) = trimStart before ++ c :: trimEnd after := by
  have hStart : trimStart (before ++ c :: after) = trimStart before ++ c :: after := by
    rw [trimStart, List.dropWhile_append, List.dropWhile_cons_of_neg (by simp [h])]
    split
    · rename_i hNone
      rw [trimStart, List.isEmpty_iff.1 hNone, List.nil_append]
    · rfl
  rw [trim, hStart]
  exact dropTrailing_append_cons h _ _

/-- A text without white space at its two ends is trimmed already. -/
theorem trim_eq_self (hHead : ∀ c, cs.head? = some c → isBlank c = false)
    (hLast : ∀ c, cs.getLast? = some c → isBlank c = false) : trim cs = cs := by
  have hStart : trimStart cs = cs := by
    cases cs with
    | nil => rfl
    | cons c r => exact List.dropWhile_cons_of_neg (by simp [hHead c rfl])
  rw [trim, hStart]
  exact dropTrailing_eq_self hLast

end Trim

section Cut

variable {sep : Char} {cs before after : List Char}

/-- The parts of a cut rejoin to the text, and the first holds no separator. -/
theorem eq_append_of_cutAt? (h : cutAt? sep cs = some (before, after)) :
    cs = before ++ sep :: after ∧ sep ∉ before := by
  induction cs generalizing before with
  | nil => simp [cutAt?] at h
  | cons c r ih =>
    rw [cutAt?] at h
    split at h
    · rename_i hc
      simp only [Option.some.injEq, Prod.mk.injEq] at h
      obtain ⟨rfl, rfl⟩ := h
      simp [hc]
    · rename_i hc
      obtain ⟨⟨b, a⟩, hb, he⟩ := Option.map_eq_some_iff.1 h
      simp only [Prod.mk.injEq] at he
      obtain ⟨rfl, rfl⟩ := he
      obtain ⟨hr, hs⟩ := ih hb
      refine ⟨by simp [hr], ?_⟩
      simp only [List.mem_cons, not_or]
      exact ⟨fun h => hc h.symm, hs⟩

/-- A text without the separator is not cut. -/
theorem cutAt?_eq_none_iff : cutAt? sep cs = none ↔ sep ∉ cs := by
  induction cs with
  | nil => simp [cutAt?]
  | cons c r ih =>
    by_cases hc : c = sep
    · simp [cutAt?, hc]
    · simp [cutAt?, hc, ih, Ne.symm hc]

/-- A text is cut at the separator behind a part that holds none. -/
theorem cutAt?_append (after : List Char) (h : sep ∉ before) :
    cutAt? sep (before ++ sep :: after) = some (before, after) := by
  induction before with
  | nil => simp [cutAt?]
  | cons c r ih =>
    simp only [List.mem_cons, not_or] at h
    rw [List.cons_append, cutAt?, if_neg (Ne.symm h.1), ih h.2]
    rfl

/-- Nothing is cut off a text without the separator. -/
theorem before_eq_self (h : sep ∉ cs) : Text.before sep cs = cs := by
  rw [Text.before, List.takeWhile_eq_self_iff]
  intro c hc
  simpa using fun (e : c = sep) => h (e ▸ hc)

theorem cutAtLast?_eq_none_iff : cutAtLast? sep cs = none ↔ sep ∉ cs := by
  induction cs with
  | nil => simp [cutAtLast?]
  | cons c r ih =>
    rw [cutAtLast?, List.mem_cons, not_or, ← ih]
    by_cases hc : c = sep
    · cases cutAtLast? sep r <;> simp [hc]
    · cases cutAtLast? sep r <;> simp [hc, Ne.symm hc]

/-- The parts of a cut at the last separator rejoin to the text, and the second holds no
separator. -/
theorem eq_append_of_cutAtLast? (h : cutAtLast? sep cs = some (before, after)) :
    cs = before ++ sep :: after ∧ sep ∉ after := by
  induction cs generalizing before with
  | nil => simp [cutAtLast?] at h
  | cons c r ih =>
    rw [cutAtLast?] at h
    split at h
    · rename_i b a hr
      simp only [Option.some.injEq, Prod.mk.injEq] at h
      obtain ⟨rfl, rfl⟩ := h
      obtain ⟨hParts, hAfter⟩ := ih hr
      exact ⟨by rw [hParts, List.cons_append], hAfter⟩
    · rename_i hNone
      split at h
      · rename_i hc
        simp only [Option.some.injEq, Prod.mk.injEq] at h
        obtain ⟨rfl, rfl⟩ := h
        exact ⟨by rw [hc, List.nil_append], cutAtLast?_eq_none_iff.1 hNone⟩
      · simp at h

/-- The last separator is the only one in what stands behind it. -/
theorem cutAtLast?_append (before : List Char) (h : sep ∉ after) :
    cutAtLast? sep (before ++ sep :: after) = some (before, after) := by
  induction before with
  | nil => simp [cutAtLast?, cutAtLast?_eq_none_iff.2 h]
  | cons c r ih => simp [cutAtLast?, ih]

end Cut

section DropEnd

variable {tail cs rest : List Char}

theorem dropEnd?_append (cs tail : List Char) : dropEnd? tail (cs ++ tail) = some cs := by
  rw [dropEnd?, dropStart?, List.reverse_append, if_pos]
  · simp
  · rw [List.isPrefixOf_iff_prefix]
    exact List.prefix_append _ _

theorem eq_append_of_dropEnd? (h : dropEnd? tail cs = some rest) : cs = rest ++ tail := by
  rw [dropEnd?, dropStart?] at h
  split at h
  · rename_i hPrefix
    rw [List.isPrefixOf_iff_prefix] at hPrefix
    obtain ⟨front, hFront⟩ := hPrefix
    rw [Option.map_some, Option.some.injEq, ← hFront, List.drop_left] at h
    rw [← List.reverse_inj, ← hFront, ← h]
    simp
  · simp at h

end DropEnd

section Split

variable {sep : Char} {cs ds piece : List Char} {parts : List (List Char)}

theorem splitOn_cons_sep (sep : Char) (cs : List Char) :
    splitOn sep (sep :: cs) = [] :: splitOn sep cs := by
  rw [splitOn, if_pos rfl]

/-- A text is split where a separator stands. -/
theorem splitOn_append_sep (sep : Char) (cs ds : List Char) :
    splitOn sep (cs ++ sep :: ds) = splitOn sep cs ++ splitOn sep ds := by
  induction cs with
  | nil => rw [List.nil_append, splitOn_cons_sep]; rfl
  | cons c r ih =>
    rw [List.cons_append, splitOn, splitOn]
    split
    · rw [ih]; rfl
    · cases h : splitOn sep r with
      | nil => exact absurd h (splitOn_ne_nil sep r)
      | cons piece rest => rw [ih, h]; rfl

/-- A text without the separator is its only piece. -/
theorem splitOn_eq_singleton (h : sep ∉ cs) : splitOn sep cs = [cs] := by
  induction cs with
  | nil => rfl
  | cons c r ih =>
    simp only [List.mem_cons, not_or] at h
    rw [splitOn, if_neg (Ne.symm h.1), ih h.2]

/-- A piece holds no separator, and nothing that the text does not hold. -/
theorem of_mem_splitOn (h : piece ∈ splitOn sep cs) :
    sep ∉ piece ∧ ∀ c ∈ piece, c ∈ cs := by
  induction cs generalizing piece with
  | nil =>
    rw [splitOn, List.mem_singleton] at h
    simp [h]
  | cons d r ih =>
    rw [splitOn] at h
    split at h
    · rcases List.mem_cons.1 h with rfl | h
      · simp
      · exact ⟨(ih h).1, fun c hc => List.mem_cons_of_mem d ((ih h).2 c hc)⟩
    · rename_i hd
      split at h
      · rename_i hNil
        exact absurd hNil (splitOn_ne_nil sep r)
      · rename_i first rest hr
        rw [hr] at ih
        rcases List.mem_cons.1 h with rfl | h
        · have hFirst := ih (List.mem_cons_self ..)
          refine ⟨?_, ?_⟩
          · simp only [List.mem_cons, not_or]
            exact ⟨Ne.symm hd, hFirst.1⟩
          · intro c hc
            rcases List.mem_cons.1 hc with rfl | hc
            · exact List.mem_cons_self ..
            · exact List.mem_cons_of_mem d (hFirst.2 c hc)
        · have hRest := ih (List.mem_cons_of_mem first h)
          exact ⟨hRest.1, fun c hc => List.mem_cons_of_mem d (hRest.2 c hc)⟩

theorem splitOn_eq (sep : Char) (cs : List Char) : splitOn sep cs = cs.splitOn sep := by
  induction cs with
  | nil => rfl
  | cons c r ih =>
    rw [splitOn, ih, List.splitOn_cons_eq_if_modifyHead]
    simp only [beq_iff_eq]
    split
    · rfl
    · obtain ⟨piece, rest, hr⟩ := List.exists_cons_of_ne_nil (List.splitOn_ne_nil sep r)
      rw [hr]
      rfl

/-- A text is split into the texts without a separator that it joins. -/
theorem splitOn_eq_iff (h : parts ≠ []) :
    splitOn sep cs = parts ↔ (∀ part ∈ parts, sep ∉ part) ∧ [sep].intercalate parts = cs := by
  constructor
  · rintro rfl
    refine ⟨fun part hPart => (of_mem_splitOn hPart).1, ?_⟩
    rw [splitOn_eq, List.intercalate_splitOn]
  · rintro ⟨hParts, rfl⟩
    rw [splitOn_eq, List.splitOn_intercalate sep hParts h]

end Split

section Join

variable {sep : String} {texts : List String}

theorem join_cons (s : String) (h : texts ≠ []) :
    join sep (s :: texts) = s ++ sep ++ join sep texts := by
  cases texts with
  | nil => exact absurd rfl h
  | cons t r => rfl

/-- What is joined holds nothing but the texts and the separator. -/
theorem mem_join {c : Char} (h : c ∈ (join sep texts).toList) :
    c ∈ sep.toList ∨ ∃ s ∈ texts, c ∈ s.toList := by
  induction texts with
  | nil => simp [join] at h
  | cons s r ih =>
    cases r with
    | nil => exact .inr ⟨s, List.mem_singleton_self s, h⟩
    | cons t r =>
      rw [join_cons s (by simp), String.toList_append, String.toList_append, List.mem_append,
        List.mem_append] at h
      rcases h with (h | h) | h
      · exact .inr ⟨s, List.mem_cons_self .., h⟩
      · exact .inl h
      · rcases ih h with hSep | ⟨u, hu, hc⟩
        · exact .inl hSep
        · exact .inr ⟨u, List.mem_cons_of_mem s hu, hc⟩

theorem join_ne_empty (hTexts : ∀ s ∈ texts, s ≠ "") (h : texts ≠ []) : join sep texts ≠ "" := by
  obtain ⟨s, r, rfl⟩ := List.exists_cons_of_ne_nil h
  have hFirst : s ≠ "" := hTexts s (List.mem_cons_self ..)
  cases r with
  | nil => exact hFirst
  | cons t r =>
    rw [join_cons s (List.cons_ne_nil t r), ne_eq, String.append_eq_empty_iff,
      String.append_eq_empty_iff]
    exact fun hEmpty => hFirst hEmpty.1.1

/-- Texts without the separator are found again where they were joined. -/
theorem splitOn_join {c : Char} (hTexts : ∀ s ∈ texts, c ∉ s.toList) (h : texts ≠ []) :
    splitOn c (join (String.singleton c) texts).toList = texts.map String.toList := by
  induction texts with
  | nil => exact absurd rfl h
  | cons s r ih =>
    obtain ⟨hFirst, hRest⟩ := List.forall_mem_cons.1 hTexts
    cases r with
    | nil => exact splitOn_eq_singleton hFirst
    | cons t r =>
      have hText : (join (String.singleton c) (s :: t :: r)).toList =
          s.toList ++ c :: (join (String.singleton c) (t :: r)).toList := by
        rw [join_cons s (List.cons_ne_nil t r)]
        simp
      rw [hText, splitOn_append_sep, splitOn_eq_singleton hFirst,
        ih hRest (List.cons_ne_nil t r)]
      rfl

end Join

/-- A text of characters of one byte each has as many bytes as characters. -/
theorem utf8ByteSize_ofList {cs : List Char} (h : ∀ c ∈ cs, c.utf8Size = 1) :
    (String.ofList cs).utf8ByteSize = cs.length := by
  induction cs with
  | nil => rfl
  | cons c r ih =>
    obtain ⟨hc, hr⟩ := List.forall_mem_cons.1 h
    rw [String.ofList_cons, String.utf8ByteSize_append, String.utf8ByteSize_singleton, ih hr, hc,
      List.length_cons, Nat.add_comm]

/-- The bytes of a text are read as that text. -/
theorem fromUTF8?_toUTF8 (text : String) : String.fromUTF8? text.toUTF8 = some text := by
  rw [String.fromUTF8?, String.toUTF8_eq_toByteArray, dif_pos text.isValidUTF8]
  rfl

end KubeCompose.Text
