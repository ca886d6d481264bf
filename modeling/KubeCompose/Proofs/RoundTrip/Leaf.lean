import KubeCompose.Proofs.RoundTrip.Step

/-!
# Scalars and empty collections that are read back

A text is written in a style in which it can be read; numbers, truth values and null are written as
plain scalars. `leafTokens` are the tokens of a scalar or an empty collection, which a scan reads at
the end of a line and in front of the colon of a key.
-/

namespace KubeCompose.Yaml

open Number (isDigit decimal decimalInt hexadecimal Binary64)
open Scan (EmptyPair)

/-! ### Styles -/

theorem isPlainBreak_of_isPrintable {c : Char} (h : isPrintable c = true)
    (hBreak : isBreak c = true) : isPlainBreak c = true := by
  simp only [isBreak, Bool.or_eq_true, beq_iff_eq] at hBreak
  rcases hBreak with (((rfl | rfl) | rfl) | rfl) | rfl <;> first | rfl | exact absurd h (by decide)

theorem ne_of_isPrintable {c : Char} (h : isPrintable c = true) : c ≠ '\t' ∧ c ≠ '\ufeff' := by
  constructor <;> rintro rfl <;> exact absurd h (by decide)

theorem readsSingle_of_allowsSingle {cs : List Char} (h : allowsSingle cs = true)
    (hFeed : '\n' ∉ cs) : ReadsSingle cs := by
  simp only [allowsSingle, Bool.and_eq_true, Bool.not_eq_true', List.all_eq_true] at h
  obtain ⟨⟨hPrintable, hBefore⟩, hBehind⟩ := h
  refine ⟨fun c hc hBreak => ?_, fun hTab => ?_, hBefore, hBehind⟩
  · have hPlain := isPlainBreak_of_isPrintable (hPrintable c hc) hBreak
    simp only [isPlainBreak, Bool.or_eq_true, beq_iff_eq] at hPlain
    rcases hPlain with rfl | hSeparator
    · exact absurd hc hFeed
    · exact hSeparator
  · exact (ne_of_isPrintable (hPrintable _ hTab)).1 rfl

theorem readsPlain_of_allowsPlain {cs : List Char} (h : allowsPlain cs = true)
    (hNonempty : cs ≠ []) : ReadsPlain cs := by
  simp only [allowsPlain, allowsSingle, Bool.and_eq_true, Bool.not_eq_true', List.all_eq_true,
    bne_iff_ne, ne_eq] at h
  obtain ⟨⟨⟨⟨⟨⟨hPrintable, -⟩, -⟩, hBreaks⟩, hHead⟩, hLast⟩, hIndicator⟩ := h
  refine ⟨hNonempty, fun hMark => ?_, fun c hc hSpace => ?_, hHead, hLast, hIndicator⟩
  · exact (ne_of_isPrintable (hPrintable _ (List.mem_of_mem_head? hMark))).2 rfl
  · simp only [isSpaceOrBreak, isSpaceOrTab, Bool.or_eq_true, beq_iff_eq] at hSpace
    rcases hSpace with (hSpace | hTab) | hBreak
    · exact hSpace
    · exact absurd hTab (ne_of_isPrintable (hPrintable c hc)).1
    · exact absurd (List.any_eq_true.2 ⟨c, hc, hBreak⟩) (by simp [hBreaks])

theorem readsLiteral_of_allowsLiteral {cs : List Char} (h : allowsLiteral cs = true) :
    ReadsLiteral cs ∧ cs ≠ [] := by
  simp only [allowsLiteral, Bool.and_eq_true, Bool.not_eq_true', List.all_eq_true,
    List.isEmpty_eq_false_iff] at h
  obtain ⟨⟨⟨hNonempty, hPrintable⟩, -⟩, -⟩ := h
  refine ⟨⟨fun c hc hBreak => isPlainBreak_of_isPrintable (hPrintable c hc) hBreak, fun hTab => ?_⟩,
    hNonempty⟩
  exact (ne_of_isPrintable (hPrintable _ hTab)).1 rfl

/-- A text can be read in the style in which it is written. -/
theorem styleOf_reads (s : String) :
    match styleOf s with
    | .plain => ReadsPlain s.toList
    | .single => ReadsSingle s.toList
    | .double => True
    | .literal => ReadsLiteral s.toList ∧ s.toList ≠ [] := by
  have hEmpty : isAmbiguous s = false → s.toList ≠ [] := by
    intro hClear hText
    obtain rfl : s = "" := String.toList_eq_nil_iff.1 hText
    exact absurd hClear (by decide)
  unfold styleOf
  dsimp only
  by_cases hFeed : s.toList.contains '\n' = true
  · rw [if_pos hFeed]
    by_cases hLiteral : allowsLiteral s.toList = true
    · rw [if_pos hLiteral]
      exact readsLiteral_of_allowsLiteral hLiteral
    · rw [if_neg hLiteral]
      trivial
  · rw [if_neg hFeed]
    have hNone : '\n' ∉ s.toList := by simpa using hFeed
    by_cases hPlain : (!isAmbiguous s && allowsPlain s.toList) = true
    · rw [if_pos hPlain]
      simp only [Bool.and_eq_true, Bool.not_eq_true'] at hPlain
      exact readsPlain_of_allowsPlain hPlain.2 (hEmpty hPlain.1)
    · rw [if_neg hPlain]
      by_cases hSingle : allowsSingle s.toList = true
      · rw [if_pos hSingle]
        exact readsSingle_of_allowsSingle hSingle hNone
      · rw [if_neg hSingle]
        trivial

theorem mem_of_styleOf_literal {s : String} (h : styleOf s = .literal) : '\n' ∈ s.toList := by
  unfold styleOf at h
  dsimp only at h
  by_cases hFeed : s.toList.contains '\n' = true
  · simpa using hFeed
  · rw [if_neg hFeed] at h
    revert h
    split
    · simp
    · split <;> simp

/-! ### Numbers -/

/-- The characters of numbers behind their first digit. -/
def isNumberChar (c : Char) : Bool := isDigit c || c == '.' || c == 'e' || c == '-'

theorem isNumberChar_of_isDigit {c : Char} (h : isDigit c = true) : isNumberChar c = true := by
  simp [isNumberChar, h]

theorem not_special_of_isNumberChar {c : Char} (h : isNumberChar c = true) :
    isSpaceOrBreak c = false ∧ c ≠ ' ' ∧ c ≠ ':' ∧ c ≠ '#' ∧ c ≠ '\ufeff' := by
  have hDigit : ∀ d < 10, isSpaceOrBreak d.digitChar = false ∧ d.digitChar ≠ ' ' ∧
      d.digitChar ≠ ':' ∧ d.digitChar ≠ '#' ∧ d.digitChar ≠ '\ufeff' := by decide
  simp only [isNumberChar, Bool.or_eq_true, beq_iff_eq] at h
  rcases h with ((h | rfl) | rfl) | rfl
  · obtain ⟨d, hd, rfl⟩ := Number.exists_digitChar h
    exact hDigit d hd
  all_goals decide

theorem hasInnerIndicator_eq_false {cs : List Char} (h : ∀ c ∈ cs, c ≠ ':' ∧ c ≠ '#')
    (previous : Char) : hasInnerIndicator previous cs = false := by
  induction cs generalizing previous with
  | nil => rfl
  | cons c r ih =>
    obtain ⟨⟨hColon, hComment⟩, h⟩ := List.forall_mem_cons.1 h
    simp [hasInnerIndicator, hColon, hComment, ih h]

/-- A number: digits and marks behind an optional sign and a first digit. -/
structure SpellsNumber (sign : List Char) (d : Char) (r : List Char) : Prop where
  sign : sign = [] ∨ sign = ['-']
  digit : isDigit d = true
  chars : ∀ c ∈ r, isNumberChar c = true

namespace SpellsNumber

variable {sign r : List Char} {d : Char} (h : SpellsNumber sign d r)
include h

theorem isNumberChar : ∀ c ∈ sign ++ d :: r, isNumberChar c = true := by
  intro c hc
  rcases List.mem_append.1 hc with hc | hc
  · rcases h.sign with rfl | rfl
    · cases hc
    · rw [List.mem_singleton.1 hc]
      rfl
  · rcases List.mem_cons.1 hc with rfl | hc
    · exact isNumberChar_of_isDigit h.digit
    · exact h.chars c hc

theorem readsPlain : ReadsPlain (sign ++ d :: r) := by
  have hSpecial := fun c hc => not_special_of_isNumberChar (h.isNumberChar c hc)
  refine ⟨by simp, fun hMark => ?_, fun c hc hBreak => ?_, fun hHead => ?_, fun hLast => ?_, ?_⟩
  · exact (hSpecial _ (List.mem_of_mem_head? hMark)).2.2.2.2 rfl
  · rw [(hSpecial c hc).1] at hBreak
    exact absurd hBreak (by decide)
  · exact (hSpecial _ (List.mem_of_mem_head? hHead)).2.1 rfl
  · exact (hSpecial _ (List.mem_of_getLast? hLast)).2.1 rfl
  · have hInner : ∀ c ∈ d :: r, c ≠ ':' ∧ c ≠ '#' := fun c hc =>
      ⟨(hSpecial c (List.mem_append_right _ hc)).2.2.1,
        (hSpecial c (List.mem_append_right _ hc)).2.2.2.1⟩
    have hAll : ∀ n < 10, "#,[]\x7b\x7d&*!|>'\"%@`".toList.contains n.digitChar = false ∧
        (n.digitChar == '?' || n.digitChar == ':' || n.digitChar == '-') = false ∧
        ('.' == n.digitChar) = false ∧ ('-' == n.digitChar) = false ∧
        isSpaceOrBreak n.digitChar = false := by decide
    obtain ⟨n, hn, hd⟩ := Number.exists_digitChar h.digit
    obtain ⟨hIndicator, hMark, hDot, hDash, hBreak⟩ := hd ▸ hAll n hn
    rcases h.sign with rfl | rfl
    · have hTail := hasInnerIndicator_eq_false (fun c hc => hInner c (List.mem_cons_of_mem _ hc)) d
      rw [List.nil_append, hasIndicator, hIndicator, hMark, hTail]
      simp [List.isPrefixOf, hDot, hDash]
    · have hTail := hasInnerIndicator_eq_false hInner '-'
      simp [hasIndicator, hTail, endsWord, hBreak, List.isPrefixOf, hDash]

end SpellsNumber

theorem exists_decimal (n : Nat) :
    ∃ d r, Nat.toDigits 10 n = d :: r ∧ isDigit d = true ∧ ∀ c ∈ r, isDigit c = true := by
  obtain ⟨d, r, hText⟩ := List.exists_cons_of_ne_nil (Nat.toDigits_ne_nil (b := 10) (n := n))
  have hAll : ∀ c ∈ d :: r, isDigit c = true := fun c hc =>
    Number.isDigit_of_mem_toDigits (hText ▸ hc)
  exact ⟨d, r, hText, List.forall_mem_cons.1 hAll⟩

theorem exists_decimalInt (n : Int) :
    ∃ sign d r, (decimalInt n).toList = sign ++ d :: r ∧ SpellsNumber sign d r := by
  cases n with
  | ofNat m =>
    obtain ⟨d, r, hText, hDigit, hChars⟩ := exists_decimal m
    refine ⟨[], d, r, by simp [decimalInt, decimal, hText], .inl rfl, hDigit, ?_⟩
    exact fun c hc => isNumberChar_of_isDigit (hChars c hc)
  | negSucc m =>
    obtain ⟨d, r, hText, hDigit, hChars⟩ := exists_decimal (m + 1)
    refine ⟨['-'], d, r, by simp [decimalInt, decimal, hText], .inr rfl, hDigit, ?_⟩
    exact fun c hc => isNumberChar_of_isDigit (hChars c hc)

/-- A decimal is written as a digit and what follows it. -/
theorem exists_layout (x : Binary64.Decimal) :
    ∃ d r, x.layout.toList = d :: r ∧ SpellsNumber [] d r := by
  obtain ⟨d, r, hText, hDigit, hRest⟩ := exists_decimal x.digits
  have hr : ∀ c ∈ r, isNumberChar c = true := fun c hc => isNumberChar_of_isDigit (hRest c hc)
  have hZeros : ∀ n : Nat, ∀ c ∈ List.replicate n '0', isNumberChar c = true := by
    intro n c hc
    rw [(List.mem_replicate.1 hc).2]
    rfl
  have hExponent : ∀ n : Int, ∀ c ∈ 'e' :: (decimalInt n).toList, isNumberChar c = true := by
    intro n
    obtain ⟨sign, e, q, hInt, hSpells⟩ := exists_decimalInt n
    rw [hInt]
    exact List.forall_mem_cons.2 ⟨rfl, hSpells.isNumberChar⟩
  unfold Binary64.Decimal.layout
  simp only [hText]
  split
  · refine ⟨d, r ++ List.replicate x.exponent.natAbs '0' ++ ".0".toList, by simp, .inl rfl,
      hDigit, ?_⟩
    simp only [List.forall_mem_append]
    exact ⟨⟨hr, hZeros _⟩, by decide⟩
  · split
    · rename_i hPoint
      obtain ⟨n, hn⟩ : ∃ n, (x.exponent + ((d :: r).length : Int)).natAbs = n + 1 :=
        ⟨(x.exponent + ((d :: r).length : Int)).natAbs - 1, by omega⟩
      refine ⟨d, r.take n ++ '.' :: r.drop n, ?_, .inl rfl, hDigit, ?_⟩
      · rw [hn]
        simp
      simp only [List.forall_mem_append, List.forall_mem_cons]
      exact ⟨fun c hc => hr c (List.mem_of_mem_take hc), rfl,
        fun c hc => hr c (List.mem_of_mem_drop hc)⟩
    · split
      · refine ⟨'0', '.' :: (List.replicate (x.exponent + ((d :: r).length : Int)).natAbs '0' ++
          d :: r), by simp, .inl rfl, rfl, ?_⟩
        simp only [List.forall_mem_append, List.forall_mem_cons]
        exact ⟨rfl, hZeros _, isNumberChar_of_isDigit hDigit, hr⟩
      · split
        · rename_i hDigits
          obtain ⟨rfl, -⟩ := List.cons.inj hDigits
          exact ⟨d, _, by simp; rfl, .inl rfl, hDigit, hExponent _⟩
        · rename_i hDigits
          obtain ⟨rfl, rfl⟩ := List.cons.inj hDigits
          refine ⟨d, '.' :: (r ++ 'e' :: (decimalInt _).toList), by simp; rfl, .inl rfl, hDigit, ?_⟩
          simp only [List.forall_mem_append, List.forall_mem_cons]
          exact ⟨rfl, hr, List.forall_mem_cons.1 (hExponent _)⟩
        · rename_i hDigits
          cases hDigits

theorem readsPlain_decimalInt (n : Int) : ReadsPlain (decimalInt n).toList := by
  obtain ⟨sign, d, r, hText, hSpells⟩ := exists_decimalInt n
  exact hText ▸ hSpells.readsPlain

theorem exists_unsigned (significand : Nat) (exponent : Int) :
    ∃ d r, (if significand = 0 then "0.0" else
      (Binary64.shortest significand exponent).layout).toList = d :: r ∧ SpellsNumber [] d r := by
  split
  · exact ⟨'0', ['.', '0'], rfl, .inl rfl, rfl, by decide⟩
  · exact exists_layout _

theorem exists_finite (negative : Bool) (significand : Nat) (exponent : Int) :
    ∃ sign d r, (Binary64.finite negative significand exponent).text.toList = sign ++ d :: r ∧
      SpellsNumber sign d r := by
  obtain ⟨d, r, hText, hSpells⟩ := exists_unsigned significand exponent
  cases negative with
  | false => exact ⟨[], d, r, by simpa [Binary64.text] using hText, hSpells⟩
  | true => exact ⟨['-'], d, r, by simp [Binary64.text, hText], .inr rfl, hSpells.digit,
      hSpells.chars⟩

theorem readsPlain_text (x : Binary64) : ReadsPlain x.text.toList := by
  cases x with
  | nan => exact ⟨by decide, by decide, by decide, by decide, by decide, by decide⟩
  | infinite negative =>
    cases negative <;> exact ⟨by decide, by decide, by decide, by decide, by decide, by decide⟩
  | finite negative significand exponent =>
    obtain ⟨sign, d, r, hText, hSpells⟩ := exists_finite negative significand exponent
    exact hText ▸ hSpells.readsPlain

/-! ### The texts of scalars and empty collections -/

/-- The tokens of a scalar or an empty collection. -/
def leafTokens : Yaml → List Token
  | .seq _ => [.flowSeqStart, .flowSeqEnd]
  | .map _ => [.flowMapStart, .flowMapEnd]
  | .str s => [.scalar s (decide (styleOf s = .plain))]
  | v => [.scalar (String.ofList ((leafLines? 0 v).getD [])) true]

/-- The text of a scalar or an empty collection with its tokens, in a block indented by two columns
less than `m`. -/
inductive LeafText (m : Nat) : List Char → List Token → Prop
  | plain {cs : List Char} : ReadsPlain cs → LeafText m cs [.scalar (String.ofList cs) true]
  | quoted {quote : Char} {write : Char → List Char} {inner text : List Char} :
      quote = '\'' ∨ quote = '"' → QuotedInner quote write inner text →
      LeafText m (quote :: (inner ++ [quote])) [.scalar (String.ofList text) false]
  | literal {cs : List Char} : ReadsLiteral cs → cs ≠ [] →
      LeafText m ('|' :: (literalHints cs ++ '\n' :: literalLines m true cs))
        [.scalar (String.ofList cs) false]
  | empty {a b : Char} {start stop : Token} : EmptyPair a b start stop →
      LeafText m [a, b] [start, stop]

/-- The text of a scalar or an empty collection on one line. -/
inductive KeyText : List Char → List Token → Prop
  | plain {cs : List Char} : ReadsPlain cs → KeyText cs [.scalar (String.ofList cs) true]
  | quoted {quote : Char} {write : Char → List Char} {inner text : List Char} :
      quote = '\'' ∨ quote = '"' → QuotedInner quote write inner text →
      (∀ c ∈ text, isBreak c = false) →
      KeyText (quote :: (inner ++ [quote])) [.scalar (String.ofList text) false]
  | empty {a b : Char} {start stop : Token} : EmptyPair a b start stop →
      KeyText [a, b] [start, stop]

/-- A text in its style. -/
theorem leafText_textLines {m : Nat} (hm : 0 < m) (s : String) :
    LeafText m (textLines m s) [.scalar s (decide (styleOf s = .plain))] := by
  have hReads := styleOf_reads s
  have hSelf : String.ofList s.toList = s := String.ofList_toList
  unfold textLines
  dsimp only
  split at hReads <;> rename_i hStyle <;> simp only [hStyle]
  · simpa [hSelf] using LeafText.plain (m := m) hReads
  · simpa [hSelf, singleQuoted] using
      LeafText.quoted (m := m) (.inl rfl) (quotedInner_single hm _ hReads)
  · have hInner := LeafText.quoted (m := m) (.inr rfl) (quotedInner_double s.toList)
    rwa [hSelf] at hInner
  · simpa [hSelf] using LeafText.literal (m := m) hReads.1 hReads.2

/-- A scalar or an empty collection as written is read as its tokens. -/
theorem leafText_of_leafLines? {m : Nat} (hm : 0 < m) {v : Yaml} {lines : List Char}
    (h : leafLines? m v = some lines) : LeafText m lines (leafTokens v) := by
  cases v with
  | null => cases h; exact .plain ⟨by decide, by decide, by decide, by decide, by decide, by decide⟩
  | bool b =>
    cases b <;> cases h <;>
      exact .plain ⟨by decide, by decide, by decide, by decide, by decide, by decide⟩
  | int n => cases h; exact .plain (readsPlain_decimalInt n)
  | float x => cases h; exact .plain (readsPlain_text x)
  | str s => cases h; exact leafText_textLines hm s
  | seq items =>
    cases items with
    | nil => cases h; exact .empty .seq
    | cons x xs => cases h
  | map entries =>
    cases entries with
    | nil => cases h; exact .empty .map
    | cons e es => cases h
  | tagged t v => cases h

/-! ### Keys on one line -/

theorem byteLength_le (cs : List Char) : byteLength cs ≤ 4 * cs.length := by
  induction cs with
  | nil => exact Nat.le_refl 0
  | cons c r ih =>
    have := c.utf8Size_le_four
    simp only [byteLength_cons, List.length_cons]
    omega

theorem byteLength_flatMap_le {f : Char → List Char} (h : ∀ c, byteLength (f c) ≤ 4 * c.utf8Size)
    (cs : List Char) : byteLength (cs.flatMap f) ≤ 4 * byteLength cs := by
  induction cs with
  | nil => exact Nat.le_refl 0
  | cons c r ih =>
    have := h c
    simp only [List.flatMap_cons, byteLength_append, byteLength_cons]
    omega

theorem byteLength_toList (s : String) : byteLength s.toList = s.utf8ByteSize := by
  have hOfList : ∀ cs : List Char, byteLength cs = (String.ofList cs).utf8ByteSize := by
    intro cs
    induction cs with
    | nil => rfl
    | cons c r ih => simp [ih]
  rw [hOfList, String.ofList_toList]

theorem byteLength_hexadecimal (width : Nat) {n : Nat} (hWidth : 0 < width) (h : n < 16 ^ width) :
    byteLength (hexadecimal width n) = width := by
  have hSize : ∀ cs : List Char, (∀ c ∈ cs, c.utf8Size = 1) → byteLength cs = cs.length := by
    intro cs
    induction cs with
    | nil => intro _; rfl
    | cons c r ih =>
      intro hAll
      obtain ⟨hc, hAll⟩ := List.forall_mem_cons.1 hAll
      rw [byteLength_cons, hc, ih hAll, List.length_cons, Nat.add_comm]
  have hDigit : ∀ d < 16, d.digitChar.toUpper.utf8Size = 1 := by decide
  rw [hSize _ fun c hc => ?_, Number.length_hexadecimal hWidth h]
  obtain ⟨d, hd, rfl⟩ := Number.hexadecimal_mem hc
  exact hDigit d hd

theorem byteLength_singleChar (c : Char) : byteLength (singleChar c) ≤ 4 * c.utf8Size := by
  unfold singleChar
  split
  · rename_i hQuote
    rw [beq_iff_eq.1 hQuote]
    decide
  · simp
    omega

theorem le_utf8Size (c : Char) :
    (0xFF < c.toNat → 2 ≤ c.utf8Size) ∧ (0xFFFF < c.toNat → 4 ≤ c.utf8Size) := by
  have hVal : ∀ {n : UInt32}, c.val ≤ n → c.toNat ≤ n.toNat := fun h =>
    UInt32.le_iff_toNat_le.1 h
  unfold Char.utf8Size
  dsimp only
  split
  · rename_i hLess
    have : c.toNat ≤ 127 := hVal hLess
    omega
  · split
    · rename_i hLess
      have : c.toNat ≤ 2047 := hVal hLess
      omega
    · split
      · rename_i hLess
        have : c.toNat ≤ 65535 := hVal hLess
        omega
      · omega

theorem byteLength_doubleChar (c : Char) : byteLength (doubleChar c) ≤ 4 * c.utf8Size := by
  have hPos := c.utf8Size_pos
  have hSelf : byteLength [c] ≤ 4 * c.utf8Size := by simp; omega
  unfold doubleChar
  split
  · unfold escape
    dsimp only
    split
    case h_16 =>
      split
      · have hDigits := byteLength_hexadecimal (n := c.toNat) 2 (by decide) (by omega)
        rw [byteLength_cons, byteLength_cons, hDigits]
        exact Nat.mul_le_mul_left 4 hPos
      · split
        · have hDigits := byteLength_hexadecimal (n := c.toNat) 4 (by decide) (by omega)
          have hSize := (le_utf8Size c).1 (by omega)
          rw [byteLength_cons, byteLength_cons, hDigits]
          exact Nat.le_trans (by decide) (Nat.mul_le_mul_left 4 hSize)
        · have hBound : c.toNat < 16 ^ 8 := c.val.toNat_lt
          have hDigits := byteLength_hexadecimal 8 (by decide) hBound
          have hSize := (le_utf8Size c).2 (by omega)
          rw [byteLength_cons, byteLength_cons, hDigits]
          exact Nat.le_trans (by decide) (Nat.mul_le_mul_left 4 hSize)
    all_goals decide
  · exact hSelf

theorem byteLength_escapedBytes (bytes : List UInt8) :
    byteLength (escapedBytes bytes) = 3 * bytes.length := by
  induction bytes with
  | nil => rfl
  | cons b bytes ih =>
    have hHex := byteLength_hexadecimal (n := b.toNat) 2 (by decide) b.toNat_lt
    have hText : escapedBytes (b :: bytes) = '%' :: hexadecimal 2 b.toNat ++ escapedBytes bytes :=
      rfl
    rw [hText, byteLength_append, byteLength_cons, hHex, ih, List.length_cons]
    have hPercent : '%'.utf8Size = 1 := rfl
    omega

theorem byteLength_tagChar (c : Char) : byteLength (tagChar c) ≤ 4 * c.utf8Size := by
  unfold tagChar
  split
  · simp
    omega
  · rw [byteLength_escapedBytes, String.length_utf8EncodeChar]
    omega

theorem byteLength_tagText (tag : String) : byteLength (tagText tag) ≤ 4 * tagLength tag + 3 := by
  have hChars : ∀ cs, byteLength (tagChars cs) ≤ 4 * byteLength cs := fun cs => by
    rw [tagChars_eq]
    exact byteLength_flatMap_le byteLength_tagChar cs
  have hBang : '!'.utf8Size = 1 := rfl
  unfold tagText tagLength
  rw [← byteLength_toList]
  split
  · rename_i hText
    have hSize : byteLength "!<".toList = 2 ∧ byteLength ['>'] = 1 := by decide
    have := hChars ['!']
    simp only [hText, List.head?_cons, if_true, byteLength_append, hSize]
    omega
  · rename_i r _ hText
    have := hChars r
    simp only [hText, List.head?_cons, if_true, byteLength_cons, hBang]
    omega
  · rename_i hNot
    have := hChars tag.toList
    rw [byteLength_cons, hBang]
    split <;> omega

/-- A text without line ends in its style. -/
theorem keyText_textLines {s : String} (h : ∀ c ∈ s.toList, isBreak c = false) :
    KeyText (textLines 0 s) [.scalar s (decide (styleOf s = .plain))] ∧
      byteLength (textLines 0 s) ≤ 4 * s.utf8ByteSize + 2 := by
  have hReads := styleOf_reads s
  have hSelf : String.ofList s.toList = s := String.ofList_toList
  have hInner : ∀ n, singleInner n false s.toList = s.toList.flatMap singleChar := fun n => by
    simpa [singleInner] using singleInner_append n h []
  have hQuotes : '\''.utf8Size = 1 ∧ '"'.utf8Size = 1 := by decide
  rw [← byteLength_toList]
  unfold textLines
  dsimp only
  split at hReads <;> rename_i hStyle <;> simp only [hStyle]
  · refine ⟨?_, by omega⟩
    simpa [hSelf] using KeyText.plain hReads
  · have hText := KeyText.quoted (.inl rfl) (quotedInner_single (Nat.succ_pos 0) _ hReads) h
    have := byteLength_flatMap_le byteLength_singleChar s.toList
    rw [hSelf, hInner, ← hInner 0] at hText
    refine ⟨hText, ?_⟩
    rw [singleQuoted, hInner]
    simp [hQuotes]
    omega
  · have hText := KeyText.quoted (.inr rfl) (quotedInner_double s.toList) h
    have := byteLength_flatMap_le byteLength_doubleChar s.toList
    rw [hSelf] at hText
    refine ⟨hText, ?_⟩
    change byteLength ('"' :: (s.toList.flatMap doubleChar ++ ['"'])) ≤ _
    simp [hQuotes]
    omega
  · exact absurd (h '\n' (mem_of_styleOf_literal hStyle)) (by decide)

/-- A scalar or an empty collection that can stand in front of a colon. -/
theorem exists_keyText {v : Yaml} {n : Nat} (h : keyLength? v = some n)
    (hTag : ∀ t u, v ≠ .tagged t u) :
    KeyText (simpleKeyText v) (leafTokens v) ∧ byteLength (simpleKeyText v) ≤ 4 * n + 2 := by
  have hSimple : simpleKeyText v = (leafLines? 0 v).getD [] := by
    cases v with
    | tagged t u => exact absurd rfl (hTag t u)
    | _ => rfl
  have hLength : ∀ cs, leafLines? 0 v = some cs → some cs.length = some n →
      byteLength (simpleKeyText v) ≤ 4 * n + 2 := by
    intro cs hLines hn
    rw [hSimple, hLines, ← Option.some.inj hn]
    exact Nat.le_trans (byteLength_le cs) (Nat.le_add_right ..)
  have hPlain : ∀ cs, ReadsPlain cs → simpleKeyText v = cs →
      leafTokens v = [.scalar (String.ofList cs) true] →
      KeyText (simpleKeyText v) (leafTokens v) := by
    intro cs hReads hText hTokens
    rw [hText, hTokens]
    exact .plain hReads
  cases v with
  | null =>
    exact ⟨hPlain _ ⟨by decide, by decide, by decide, by decide, by decide, by decide⟩ rfl rfl,
      hLength _ rfl h⟩
  | bool b =>
    cases b <;>
      exact ⟨hPlain _ ⟨by decide, by decide, by decide, by decide, by decide, by decide⟩ rfl rfl,
        hLength _ rfl h⟩
  | int m => exact ⟨hPlain _ (readsPlain_decimalInt m) rfl rfl, hLength _ rfl h⟩
  | float x => exact ⟨hPlain _ (readsPlain_text x) rfl rfl, hLength _ rfl h⟩
  | str s =>
    simp only [keyLength?] at h
    split at h
    · cases h
    · rename_i hBreaks
      rw [← Option.some.inj h]
      exact keyText_textLines fun c hc =>
        Bool.eq_false_iff.2 fun hBreak => hBreaks (List.any_eq_true.2 ⟨c, hc, hBreak⟩)
  | seq items =>
    cases items with
    | nil =>
      obtain rfl := Option.some.inj h
      exact ⟨.empty .seq, by decide⟩
    | cons x xs => cases h
  | map entries =>
    cases entries with
    | nil =>
      obtain rfl := Option.some.inj h
      exact ⟨.empty .map, by decide⟩
    | cons e es => cases h
  | tagged t u => exact absurd rfl (hTag t u)

/-! ### Reading -/

/-- What is not left of a token's first character ends its line. -/
theorem endsLines_of_endsBlock {indent : Int} {j m : Nat} {next : List Char}
    (h : Scan.EndsBlock indent j next) (hm : m = indent.toNat + 2) :
    EndsLines m j next ∧ j < m := by
  have hLess : j < m := by
    cases h with
    | atEnd => omega
    | atMarker => omega
    | atToken _ _ hColumn => omega
  have hStart : ∀ c r, next = c :: r → c ≠ ' ' ∧ c ≠ '\t' ∧ isBreak c = false := fun c r hText =>
    let h := startsToken_iff.1 (h.startsToken c r hText)
    ⟨h.1, h.2.1, h.2.2.1⟩
  exact ⟨⟨Nat.le_of_lt hLess, fun c r hText => (hStart c r hText).2.2,
    fun c r hText => (hStart c r hText).2.1, fun _ c r hText => (hStart c r hText).1⟩, hLess⟩

theorem getLast?_literalLines (m : Nat) (start : Bool) (cs : List Char) :
    (literalLines m start cs).getLast? = cs.getLast? := by
  induction cs generalizing start with
  | nil => rfl
  | cons c r ih =>
    have hLast : ∀ (gap : List Char) (b : Bool),
        (gap ++ c :: literalLines m b r).getLast? = (c :: r).getLast? := by
      intro gap b
      rw [List.getLast?_append, List.getLast?_cons, List.getLast?_cons, ih, Option.some_or]
    rw [literalLines]
    split
    · exact hLast [] true
    · exact hLast _ false

theorem closing_eq_feed {cs : List Char} {c : Char} (hLast : cs.getLast? = some c)
    (h : isBreak c = false) : closing cs = ['\n'] := by
  simp [closing, hLast, h]

/-- The token of a scalar or an empty collection starts with it. -/
theorem LeafText.exists_cons {m : Nat} {lines : List Char} {toks : List Token}
    (h : LeafText m lines toks) : ∃ c r, lines = c :: r ∧ startsToken c = true := by
  cases h with
  | plain hReads =>
    obtain ⟨c, r, rfl⟩ := List.exists_cons_of_ne_nil hReads.nonempty
    exact ⟨c, r, rfl, Scan.startsToken_of_readsPlain hReads⟩
  | quoted hQuote _ => exact ⟨_, _, rfl, by rcases hQuote with rfl | rfl <;> decide⟩
  | literal => exact ⟨_, _, rfl, by decide⟩
  | empty hPair => exact ⟨_, _, rfl, hPair.starts.1⟩

theorem KeyText.exists_cons {lines : List Char} {toks : List Token} (h : KeyText lines toks) :
    ∃ c r, lines = c :: r ∧ startsToken c = true := by
  cases h with
  | plain hReads => exact (LeafText.plain (m := 0) hReads).exists_cons
  | quoted hQuote hInner _ => exact (LeafText.quoted (m := 0) hQuote hInner).exists_cons
  | empty hPair => exact (LeafText.empty (m := 0) hPair).exists_cons

namespace Scan

variable {tail next lines : List Char} {toks tokens : List Token} {i l k j m : Nat} {indent : Int}
  {outer : List Int} {key : Option SimpleKey} {allowed : Bool}

/-- A possible key that lapses at the end of line `l`: it need not be one. -/
structure Lapses (l : Nat) (key : Option SimpleKey) : Prop where
  idle : Idle key
  line : ∀ q, key = some q → q.line ≤ l

theorem lapses_none : Lapses l none := ⟨idle_none, by simp⟩

theorem Lapses.mono {l' : Nat} (h : Lapses l key) (hLess : l ≤ l') : Lapses l' key :=
  ⟨h.idle, fun q hq => Nat.le_trans (h.line q hq) hLess⟩

theorem Lapses.savedKey {c : Cursor} {n : Nat} (h : Lapses c.line key) (allowed : Bool)
    (hColumn : indent < c.column) : Lapses c.line (savedKey c n indent key allowed) := by
  cases allowed with
  | false => exact h
  | true =>
    constructor <;> intro q hq <;> obtain rfl := Option.some.inj hq
    · simp
      omega
    · exact Nat.le_refl _

/-- On a later line such a key is given up. -/
theorem Lapses.reaches (h : Lapses l key)
    (hStart : ∀ c r, next = c :: r → startsToken c = true) :
    Reaches (inBlock ⟨next, i, l + 1, k⟩ tokens indent outer key allowed)
      (inBlock ⟨next, i, l + 1, k⟩ tokens indent outer none allowed) := by
  refine reaches_of_settle (Nat.le_refl _) fun fuel _ => ?_
  rw [skipToToken_eq_self (s := inBlock ⟨next, i, l + 1, k⟩ tokens indent outer key allowed) hStart,
    skipToToken_eq_self (s := inBlock ⟨next, i, l + 1, k⟩ tokens indent outer none allowed) hStart,
    dropStaleKeys_of_later h.idle fun q hq => Nat.lt_succ_of_le (h.line q hq),
    dropStaleKeys_of_fresh (fresh_none _)]

theorem reaches_leaf_of_fresh (h : LeafText m lines toks) (hm : m = indent.toNat + 2)
    (hEnds : EndsBlock indent j next) (hLeast : -1 ≤ indent) (hKey : Lapses l key)
    (hColumn : indent < k)
    (hFresh : Fresh ⟨lines ++ (closing lines ++ (spaces j ++ next)), i, l, k⟩ key) :
    ∃ i' l', Reaches
      (inBlock ⟨lines ++ (closing lines ++ (spaces j ++ next)), i, l, k⟩ tokens indent outer key
        allowed)
      (inBlock ⟨next, i', l', j⟩ (tokens ++ toks) indent outer none true) := by
  have hIdle : allowed = true → Idle key := fun _ => hKey.idle
  cases h with
  | plain hReads =>
    obtain ⟨d, hd⟩ : ∃ d, lines.getLast? = some d :=
      ⟨_, List.getLast?_eq_some_getLast hReads.nonempty⟩
    have hBreak : isBreak d = false := by
      cases hBreak : isBreak d with
      | false => rfl
      | true =>
        have hSpace : isSpaceOrBreak d = true := by simp [isSpaceOrBreak, hBreak]
        rw [hReads.onlySpaces d (List.mem_of_getLast? hd) hSpace] at hBreak
        exact absurd hBreak (by decide)
    rw [closing_eq_feed hd hBreak] at hFresh ⊢
    have hRead := reaches_plain_line tokens outer hReads hEnds hLeast hFresh hIdle
      (Int.le_of_lt hColumn)
    have hLapses := hKey.savedKey (c := ⟨lines ++ '\n' :: (spaces j ++ next), i, l, k⟩)
      (n := tokens.length) allowed hColumn
    exact ⟨_, _, hRead.trans (hLapses.reaches hEnds.startsToken)⟩
  | @quoted quote write inner text hQuote hInner =>
    have hLast : (quote :: (inner ++ [quote])).getLast? = some quote := by
      rw [← List.cons_append, List.getLast?_concat]
    have hBreak : isBreak quote = false := by rcases hQuote with rfl | rfl <;> rfl
    have hText : quote :: (inner ++ [quote]) ++ ('\n' :: (spaces j ++ next)) =
        quote :: (inner ++ quote :: '\n' :: (spaces j ++ next)) := by simp
    rw [closing_eq_feed hLast hBreak] at hFresh ⊢
    rw [List.singleton_append, hText] at hFresh ⊢
    obtain ⟨l', k', hLess, -, hRead⟩ := reaches_quoted _ tokens outer hInner ⟨hQuote, by simp⟩
      hFresh hIdle (Int.le_of_lt hColumn)
    have hLapses := (hKey.savedKey
      (c := ⟨quote :: (inner ++ quote :: '\n' :: (spaces j ++ next)), i, l, k⟩)
      (n := tokens.length) allowed hColumn).mono hLess
    exact ⟨_, _, hRead.trans
      (reaches_newline _ _ _ _ _ j hEnds.startsToken hLapses.idle hLapses.line)⟩
  | @literal cs hReads hNonempty =>
    obtain ⟨hLines, hLess⟩ := endsLines_of_endsBlock hEnds hm
    have hSome : literalLines m true cs ≠ [] := by
      intro hNil
      have hLast := getLast?_literalLines m true cs
      rw [hNil, List.getLast?_nil] at hLast
      exact hNonempty (List.getLast?_eq_none_iff.1 hLast.symm)
    have hClosing : closing ('|' :: (literalHints cs ++ '\n' :: literalLines m true cs)) =
        closing cs := by
      have hSplit : '|' :: (literalHints cs ++ '\n' :: literalLines m true cs) =
          '|' :: (literalHints cs ++ ['\n']) ++ literalLines m true cs := by simp
      rw [hSplit, closing_append _ hSome, closing, closing, getLast?_literalLines]
    have hText : '|' :: (literalHints cs ++ '\n' :: literalLines m true cs) ++
        (closing cs ++ (spaces j ++ next)) = '|' :: (literalHints cs ++ '\n' ::
          (literalLines m true cs ++ (closing cs ++ (spaces j ++ next)))) := by simp
    rw [hClosing, hText] at hFresh ⊢
    exact reaches_literal hReads hNonempty hLines hLess hm hKey.idle (Int.le_of_lt hColumn) hFresh
  | @empty a b start stop hPair =>
    have hBreak : isBreak b = false := by cases hPair <;> rfl
    rw [closing_eq_feed (c := b) rfl hBreak] at hFresh ⊢
    obtain ⟨key', hKey', hRead⟩ := exists_reaches_empty tokens outer allowed hPair hFresh hKey.idle
      hColumn
    have hLapses : Lapses l key' := by
      rcases hKey' with rfl | rfl
      · exact hKey.savedKey (c := ⟨_, i, l, k⟩) _ hColumn
      · exact lapses_none
    exact ⟨_, _, hRead.trans
      (reaches_newline _ _ _ _ _ j hEnds.startsToken hLapses.idle hLapses.line)⟩

/-- A scalar or an empty collection is read up to the next token. -/
theorem reaches_leaf (tokens : List Token) (outer : List Int) (allowed : Bool)
    (h : LeafText m lines toks) (hm : m = indent.toNat + 2) (hEnds : EndsBlock indent j next)
    (hLeast : -1 ≤ indent) (hKey : Lapses l key) (hColumn : indent < k) :
    ∃ i' l', Reaches
      (inBlock ⟨lines ++ (closing lines ++ (spaces j ++ next)), i, l, k⟩ tokens indent outer key
        allowed)
      (inBlock ⟨next, i', l', j⟩ (tokens ++ toks) indent outer none true) := by
  obtain ⟨c, r, hText, hStart⟩ := h.exists_cons
  obtain ⟨key', hKey', hFresh, hDrop⟩ := exists_fresh (c := ⟨lines ++ (closing lines ++
    (spaces j ++ next)), i, l, k⟩) tokens indent outer allowed hKey.idle (fun d q hd => by
      rw [hText] at hd
      rw [← (List.cons.inj hd).1]
      exact hStart)
  have hLapses : Lapses l key' := by
    rcases hKey' with rfl | rfl
    · exact hKey
    · exact lapses_none
  obtain ⟨i', l', hRead⟩ := reaches_leaf_of_fresh h hm hEnds hLeast hLapses hColumn hFresh
  exact ⟨i', l', hDrop.trans hRead⟩

/-- A scalar or an empty collection in front of a colon is read up to it. -/
theorem reaches_key (tokens : List Token) (indent : Int) (outer : List Int) (key : Option SimpleKey)
    (allowed : Bool) (h : KeyText lines toks) (hTail : endsWord tail = true)
    (hFresh : Fresh ⟨':' :: tail, i + byteLength lines, l, k⟩ key)
    (hIdle : allowed = true → Idle key) (hColumn : indent ≤ k) :
    ∃ k', k ≤ k' ∧ Reaches
      (inBlock ⟨lines ++ ':' :: tail, i, l, k⟩ tokens indent outer key allowed)
      (inBlock ⟨':' :: tail, i + byteLength lines, l, k'⟩ (tokens ++ toks) indent outer
        (savedKey ⟨lines ++ ':' :: tail, i, l, k⟩ tokens.length indent key allowed) false) := by
  have hStarts : ∀ i' ≤ i + byteLength lines, ∀ text, Fresh ⟨text, i', l, k⟩ key :=
    fun i' hi text q hq => ⟨(hFresh q hq).1, Nat.le_trans hi (hFresh q hq).2⟩
  cases h with
  | plain hReads =>
    exact ⟨k + lines.length, Nat.le_add_right .., reaches_plain_key hReads hTail
      (hStarts i (Nat.le_add_right ..) _) hIdle hColumn⟩
  | @quoted quote write inner text hQuote hInner hBreaks =>
    have hText : quote :: (inner ++ [quote]) ++ ':' :: tail =
        quote :: (inner ++ quote :: ':' :: tail) := by simp
    have hSize : byteLength (quote :: (inner ++ [quote])) = byteLength inner + 2 := by
      have hOne : quote.utf8Size = 1 := by rcases hQuote with rfl | rfl <;> rfl
      simp [hOne]
      omega
    rw [hText, hSize, ← Nat.add_assoc]
    obtain ⟨l', k', -, hSame, hRead⟩ := reaches_quoted (':' :: tail) tokens outer hInner
      ⟨hQuote, by simp⟩ (hStarts i (Nat.le_add_right ..) _) hIdle hColumn
    obtain ⟨rfl, hLess⟩ := hSame hBreaks
    exact ⟨k', hLess, hRead⟩
  | @empty a b start stop hPair =>
    have hSize : byteLength [a, b] = 2 := by simp [hPair.size]
    rw [hSize] at hStarts ⊢
    exact ⟨k + 2, Nat.le_add_right .., reaches_empty hPair (hStarts (i + 1) (by omega) _) hIdle
      hColumn⟩

end Scan

end KubeCompose.Yaml
