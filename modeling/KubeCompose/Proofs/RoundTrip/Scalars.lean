import KubeCompose.Proofs.RoundTrip.Leaf
import KubeCompose.Proofs.Shortest

/-!
# Unquoted scalars that are read back

A number in the range of its type is read from its text, and a text that is written without quotes
is read as a text. The other way round, what an unquoted scalar is read as is in range.
-/

namespace KubeCompose

open Number (isDigit decimal decimalInt readDigits? readDigitsFrom? Binary64 twoTo)

namespace Number.Binary64

/-! ### Decimals that are read -/

section Unsigned

variable {negative : Bool} {whole fraction exponent : List Char} {n : ℕ} {e : ℤ}

theorem takeWhile_digits (rest : List Char) {cs : List Char} (h : ∀ c ∈ cs, isDigit c = true)
    (hRest : rest.head?.any isDigit = false) :
    (cs ++ rest).takeWhile isDigit = cs ∧ (cs ++ rest).dropWhile isDigit = rest := by
  rw [List.takeWhile_append_of_pos h, List.dropWhile_append_of_pos h]
  cases rest with
  | nil => simp
  | cons c r =>
    have hc : isDigit c = false := hRest
    simp [hc]

/-- Digits with a point. -/
theorem readUnsigned?_point (negative : Bool) (whole fraction : List Char)
    (hWhole : ∀ c ∈ whole, isDigit c = true) (hFraction : ∀ c ∈ fraction, isDigit c = true)
    (h : readDigits? 10 (whole ++ fraction) = some n) :
    readUnsigned? negative (whole ++ '.' :: fraction) =
      some (ofDecimal negative n (-(fraction.length : ℤ))) := by
  obtain ⟨hTake, hDrop⟩ := takeWhile_digits ('.' :: fraction) hWhole rfl
  obtain ⟨hTake', hDrop'⟩ := takeWhile_digits [] hFraction rfl
  rw [List.append_nil] at hTake' hDrop'
  rw [readUnsigned?]
  simp only [hTake, hDrop, hTake', hDrop', h]

/-- Digits with a point and an exponent. -/
theorem readUnsigned?_exponent (negative : Bool) (whole fraction : List Char)
    (hWhole : ∀ c ∈ whole, isDigit c = true) (hFraction : ∀ c ∈ fraction, isDigit c = true)
    (h : readDigits? 10 (whole ++ fraction) = some n)
    (hExponent : readExponent? exponent = some e) :
    readUnsigned? negative (whole ++ '.' :: (fraction ++ 'e' :: exponent)) =
      some (ofDecimal negative n (e - fraction.length)) := by
  obtain ⟨hTake, hDrop⟩ :=
    takeWhile_digits ('.' :: (fraction ++ 'e' :: exponent)) hWhole rfl
  obtain ⟨hTake', hDrop'⟩ := takeWhile_digits ('e' :: exponent) hFraction rfl
  rw [readUnsigned?]
  simp only [hTake, hDrop, hTake', hDrop', h, hExponent]
  rfl

/-- Digits with an exponent. -/
theorem readUnsigned?_whole (negative : Bool) (hWhole : ∀ c ∈ whole, isDigit c = true)
    (h : readDigits? 10 whole = some n) (hExponent : readExponent? exponent = some e) :
    readUnsigned? negative (whole ++ 'e' :: exponent) = some (ofDecimal negative n e) := by
  obtain ⟨hTake, hDrop⟩ := takeWhile_digits ('e' :: exponent) hWhole rfl
  rw [readUnsigned?]
  simp [hTake, hDrop, h, hExponent]

end Unsigned

theorem readExponent?_decimalInt (e : ℤ) : readExponent? (decimalInt e).toList = some e := by
  cases e with
  | ofNat n =>
    obtain ⟨d, r, hText, hDigit, -⟩ := Yaml.exists_decimal n
    have hRead := readDigits?_toDigits n
    have hNot : d ≠ '-' ∧ d ≠ '+' := by
      constructor <;> rintro rfl <;> exact absurd hDigit (by decide)
    have hChars : (decimalInt (Int.ofNat n)).toList = d :: r := by
      simp [decimalInt, decimal, hText]
    rw [hText] at hRead
    rw [hChars, readExponent?]
    · simp [hRead]
    · rintro _ hEq
      exact hNot.1 (List.cons.inj hEq).1
    · rintro _ hEq
      exact hNot.2 (List.cons.inj hEq).1
  | negSucc n =>
    have hChars : (decimalInt (Int.negSucc n)).toList = '-' :: Nat.toDigits 10 (n + 1) := by
      simp [decimalInt, decimal]
    rw [hChars, readExponent?, readDigits?_toDigits]
    simp [Int.negSucc_eq]

/-- A decimal is read from its text, if with more zeros. -/
theorem readUnsigned?_layout (negative : Bool) (d : Decimal) :
    ∃ digits exponent, readUnsigned? negative d.layout.toList =
      some (ofDecimal negative digits exponent) ∧
        Decimal.value ⟨digits, exponent⟩ = d.value := by
  have hRead := readDigits?_toDigits d.digits
  have hDigits : ∀ c ∈ Nat.toDigits 10 d.digits, isDigit c = true := fun c hc =>
    isDigit_of_mem_toDigits hc
  have hNonempty : Nat.toDigits 10 d.digits ≠ [] := Nat.toDigits_ne_nil
  have hZeros : ∀ n : ℕ, ∀ c ∈ List.replicate n '0', isDigit c = true := fun n c hc => by
    rw [(List.mem_replicate.1 hc).2]
    rfl
  have hReadFrom := hRead
  rw [readDigits?_of_ne_nil 10 hNonempty] at hReadFrom
  unfold Decimal.layout
  generalize Nat.toDigits 10 d.digits = ds at *
  dsimp only
  split
  · rename_i hPoint
    obtain ⟨k, hk⟩ : ∃ k : ℕ, d.exponent = k := ⟨d.exponent.natAbs, by omega⟩
    refine ⟨d.digits * 10 ^ (k + 1), -1, ?_, ?_⟩
    · have hAll : readDigits? 10 (ds ++ List.replicate k '0' ++ ['0']) =
          some (d.digits * 10 ^ (k + 1)) := by
        rw [List.append_assoc, ← List.replicate_succ', readDigits?_of_ne_nil 10 (by simp),
          readDigitsFrom?_append, hReadFrom]
        exact readDigitsFrom?_zeros ..
      have hRun := readUnsigned?_point negative (ds ++ List.replicate k '0') ['0'] (by
          simp only [List.forall_mem_append]
          exact ⟨hDigits, hZeros k⟩) (by simp; rfl) hAll
      simpa [hk] using hRun
    · rw [Decimal.value, Decimal.value, hk, zpow_natCast]
      push_cast
      rw [pow_succ, zpow_neg_one]
      field_simp
  · rename_i hNotWhole
    split
    · rename_i hPoint
      refine ⟨d.digits, d.exponent, ?_, rfl⟩
      have hRun := readUnsigned?_point negative (ds.take (d.exponent + ds.length).natAbs)
        (ds.drop (d.exponent + ds.length).natAbs) (fun c hc => hDigits c (List.mem_of_mem_take hc))
        (fun c hc => hDigits c (List.mem_of_mem_drop hc)) (by rwa [List.take_append_drop])
      have hLength : -((ds.drop (d.exponent + ds.length).natAbs).length : ℤ) = d.exponent := by
        rw [List.length_drop]
        omega
      rw [hLength] at hRun
      simpa using hRun
    · split
      · rename_i hPoint
        refine ⟨d.digits, d.exponent, ?_, rfl⟩
        have hAll : readDigits? 10 (['0'] ++ (List.replicate (d.exponent + ds.length).natAbs '0' ++
            ds)) = some d.digits := by
          rw [readDigits?_of_ne_nil 10 (by simp), ← List.append_assoc]
          have hSucc : ['0'] ++ List.replicate (d.exponent + ds.length).natAbs '0' =
              List.replicate ((d.exponent + ds.length).natAbs + 1) '0' := rfl
          rw [hSucc, readDigitsFrom?_zeros_append (by decide)]
          exact hReadFrom
        have hRun := readUnsigned?_point negative _ _ (by simp; rfl) (by
          simp only [List.forall_mem_append]
          exact ⟨hZeros _, hDigits⟩) hAll
        have hLength : -((List.replicate (d.exponent + ds.length).natAbs '0' ++ ds).length : ℤ) =
            d.exponent := by
          rw [List.length_append, List.length_replicate]
          omega
        rw [hLength] at hRun
        simpa using hRun
      · rename_i hNotPoint hNotSmall
        refine ⟨d.digits, d.exponent, ?_, rfl⟩
        split
        · rename_i c
          have hRun := readUnsigned?_whole negative hDigits hRead
            (readExponent?_decimalInt (d.exponent + ([c].length : ℤ) - 1))
          have hLength : d.exponent + ([c].length : ℤ) - 1 = d.exponent := by simp
          rw [hLength] at hRun ⊢
          simpa using hRun
        · rename_i c r hShort
          have hRun := readUnsigned?_exponent negative [c] r
            (fun x hx => hDigits x (by simp at hx; simp [hx]))
            (fun x hx => hDigits x (by simp [hx])) hRead
            (readExponent?_decimalInt (d.exponent + ((c :: r).length : ℤ) - 1))
          have hLength : d.exponent + ((c :: r).length : ℤ) - 1 - r.length = d.exponent := by
            rw [List.length_cons]
            push_cast
            omega
          rw [hLength] at hRun
          simpa using hRun
        · exact absurd rfl hNonempty

end Number.Binary64

namespace Yaml

/-! ### Numbers -/

/-- Whether a text begins like a number. -/
def looksNumeric : List Char → Bool
  | '-' :: d :: _ => isDigit d
  | d :: _ => isDigit d
  | [] => false

section Numeric

variable {sign r : List Char} {d : Char} {s : String} (hText : s.toList = sign ++ d :: r)
  (h : SpellsNumber sign d r)
include hText h

theorem looksNumeric_of_spellsNumber : looksNumeric s.toList = true := by
  rw [hText]
  rcases h.sign with rfl | rfl
  · have hd : d ≠ '-' := by
      rintro rfl
      exact absurd h.digit (by decide)
    rw [List.nil_append, looksNumeric]
    · exact h.digit
    · rintro c q rfl
      exact absurd rfl hd
  · exact h.digit

/-- A text that begins like a number is none of the words. -/
theorem notMem_of_spellsNumber (words : List String)
    (hWords : ∀ w ∈ words, looksNumeric w.toList = false) : s ∉ words := by
  intro hMem
  have := hWords s hMem
  rw [looksNumeric_of_spellsNumber hText h] at this
  exact Bool.false_ne_true this.symm

omit hText in
theorem readMarked?_of_spellsNumber : readMarked? (d :: r) = none := by
  rw [readMarked?.eq_def]
  split
  · rename_i q hEq
    exact absurd (h.chars 'x' (by simp [(List.cons.inj hEq).2])) (by decide)
  · rename_i q hEq
    exact absurd (h.chars 'o' (by simp [(List.cons.inj hEq).2])) (by decide)
  · rename_i q hEq
    exact absurd (h.chars 'b' (by simp [(List.cons.inj hEq).2])) (by decide)
  · rfl

theorem ofPlain?_of_spellsNumber : ofPlain? s =
    match readInteger s.toList with
    | .value n => some (.int n)
    | .beyondRange => none
    | .notInteger =>
      if hasLeadingZero s.toList then some (.str s)
      else
        match (Binary64.read? s.toList).filter (·.isFinite) with
        | some x => some (.float x)
        | none => some (.str s) := by
  have hNot := notMem_of_spellsNumber hText h
  have hEmpty : s ≠ "" := fun hEq => by simp [hEq] at hText
  have hNull : spellsNull s = false := by
    rw [spellsNull, decide_eq_false (hNot _ (by decide))]
  have hBool : readBool? s = none := by
    rw [readBool?, if_neg (hNot _ (by decide)), if_neg (hNot _ (by decide))]
  have hPlus : ∀ q, s.toList ≠ '+' :: q := by
    intro q hEq
    rw [hEq] at hText
    rcases h.sign with rfl | rfl
    · have hd : '+' = d := (List.cons.inj hText).1
      exact absurd (hd ▸ h.digit) (by decide)
    · exact absurd (List.cons.inj hText).1 (by decide)
  have hFloat : readFloat? s.toList = (Binary64.read? s.toList).filter (·.isFinite) := by
    rw [readFloat?, String.ofList_toList, if_neg (hNot _ (by decide)),
      if_neg (hNot _ (by decide)), if_neg (hNot _ (by decide))]
    · exact fun q => hPlus _
    · exact fun q => hPlus _
  rw [ofPlain?, if_neg (by simp [hEmpty, hNull])]
  simp only [hBool]
  exact hFloat ▸ rfl

end Numeric

/-! ### Integers -/

theorem head?_toDigits_ne_zero {n : ℕ} (h : 0 < n) : (Nat.toDigits 10 n).head? ≠ some '0' := by
  induction n using Nat.strongRecOn with
  | ind n ih =>
    have hDigit : ∀ d < 10, d.digitChar = '0' → d = 0 := by decide
    rw [Nat.toDigits_eq_if (by decide)]
    split
    · rename_i hLess
      intro hHead
      exact absurd (hDigit n hLess (Option.some.inj hHead)) (Nat.ne_of_gt h)
    · rename_i hLess
      rw [List.head?_append_of_ne_nil _ Nat.toDigits_ne_nil]
      exact ih (n / 10) (by omega) (by omega)

theorem digits_of_readDigitsFrom? {acc n : ℕ} {cs : List Char}
    (h : readDigitsFrom? 10 acc cs = some n) : ∀ c ∈ cs, isDigit c = true := by
  induction cs generalizing acc with
  | nil => simp
  | cons c r ih =>
    rw [readDigitsFrom?] at h
    split at h
    · rename_i d hd
      split at h
      · rename_i hLess
        refine List.forall_mem_cons.2 ⟨?_, ih h⟩
        rw [Number.digitValue?] at hd
        split at hd
        · rename_i hBounds
          simpa [isDigit] using hBounds
        · split at hd
          · have := Option.some.inj hd
            omega
          · split at hd
            · have := Option.some.inj hd
              omega
            · cases hd
      · cases h
    · cases h

theorem readDigits?_eq_none {cs : List Char} {c : Char} (hMem : c ∈ cs) (hc : isDigit c = false) :
    readDigits? 10 cs = none := by
  rw [Number.readDigits?_of_ne_nil 10 (List.ne_nil_of_mem hMem), Option.eq_none_iff_forall_ne_some]
  intro n hn
  rw [digits_of_readDigitsFrom? hn c hMem] at hc
  cases hc

section Integer

variable {sign r : List Char} {d : Char} (h : SpellsNumber sign d r)
include h

theorem hasLeadingZero_of_spellsNumber :
    hasLeadingZero (sign ++ d :: r) = (d == '0' && !r.isEmpty && r.all isDigit) := by
  have hUnsigned : hasLeadingZero (sign ++ d :: r) = hasLeadingZero ('-' :: d :: r) := by
    rcases h.sign with rfl | rfl
    · have hDash : d ≠ '-' := by
        rintro rfl
        exact absurd h.digit (by decide)
      have hPlus : d ≠ '+' := by
        rintro rfl
        exact absurd h.digit (by decide)
      cases r <;> by_cases hd : d = '0' <;> simp [hasLeadingZero, hd, hDash, hPlus]
    · rfl
  rw [hUnsigned]
  cases r with
  | nil => simp [hasLeadingZero]
  | cons c q =>
    by_cases hd : d = '0'
    · simp [hasLeadingZero, hd]
    · simp [hasLeadingZero, hd]

/-- What is read as an integer behind an optional minus sign. -/
theorem readInteger_of_spellsNumber (hZero : hasLeadingZero (sign ++ d :: r) = false) :
    readInteger (sign ++ d :: r) =
      match readDigits? 10 (d :: r) with
      | none => .notInteger
      | some n =>
        if sign = [] then
          if n < twoTo 64 then .value n else if n < twoTo 128 then .beyondRange else .notInteger
        else
          if n ≤ twoTo 63 then .value (-(n : ℤ))
          else if n ≤ twoTo 127 then .beyondRange
          else .notInteger := by
  have hMarked := readMarked?_of_spellsNumber h
  rcases h.sign with rfl | rfl
  · have hNatural : readNatural? (d :: r) = readDigits? 10 (d :: r) := by
      have hPlus : ∀ q, d :: r ≠ '+' :: q := fun q hEq =>
        absurd ((List.cons.inj hEq).1 ▸ h.digit) (by decide)
      rw [readNatural?]
      · simp only [hMarked]
        simp [List.nil_append] at hZero
        simp [hZero]
      · exact hPlus
    have hNegative : readNegative? (d :: r) = none := by
      rw [readNegative?]
      rintro q hEq
      exact absurd ((List.cons.inj hEq).1 ▸ h.digit) (by decide)
    rw [List.nil_append, readInteger, hNatural, hNegative]
    cases readDigits? 10 (d :: r) <;> simp
  · have hNatural : readNatural? ('-' :: d :: r) = none := by
      have hNone : readDigits? 10 ('-' :: d :: r) = none :=
        readDigits?_eq_none List.mem_cons_self rfl
      have hNotMarked : readMarked? ('-' :: d :: r) = none := by
        simp [readMarked?]
      rw [readNatural?]
      · simp [hNotMarked, hNone]
      · simp
    have hNegative : readNegative? ('-' :: d :: r) = readDigits? 10 (d :: r) := by
      rw [List.singleton_append] at hZero
      rw [readNegative?]
      simp [hMarked, hZero]
    rw [List.singleton_append, readInteger, hNatural, hNegative]
    cases readDigits? 10 (d :: r) <;> simp

end Integer

/-- The digits of a number begin with no zero that more digits follow. -/
theorem ofPlain?_toDigits {s : String} {sign : List Char} {m : ℕ}
    (hSign : sign = [] ∨ sign = ['-']) (hText : s.toList = sign ++ Nat.toDigits 10 m)
    {n : ℤ} (hRead : (if sign = [] then
        if m < twoTo 64 then .value m else if m < twoTo 128 then .beyondRange else .notInteger
      else
        if m ≤ twoTo 63 then .value (-(m : ℤ))
        else if m ≤ twoTo 127 then .beyondRange
        else .notInteger) = Integer.value n) :
    ofPlain? s = some (.int n) := by
  obtain ⟨d, r, hDigits, hDigit, hRest⟩ := exists_decimal m
  have hSpells : SpellsNumber sign d r :=
    ⟨hSign, hDigit, fun c hc => isNumberChar_of_isDigit (hRest c hc)⟩
  have hZero : hasLeadingZero (sign ++ d :: r) = false := by
    rw [hasLeadingZero_of_spellsNumber hSpells]
    rcases Nat.eq_zero_or_pos m with rfl | hPos
    · obtain ⟨-, rfl⟩ := List.cons.inj hDigits
      simp
    · have hHead := head?_toDigits_ne_zero hPos
      rw [hDigits] at hHead
      have hd : d ≠ '0' := fun hEq => hHead (congrArg some hEq)
      simp [hd]
  rw [hDigits] at hText
  rw [ofPlain?_of_spellsNumber hText hSpells, hText, readInteger_of_spellsNumber hSpells hZero,
    ← hDigits, Number.readDigits?_toDigits]
  dsimp only
  rw [hRead]

/-- Whether an integer is a signed or an unsigned one of 64 bits. -/
def isWord (n : ℤ) : Bool := -twoTo 63 ≤ n && n < twoTo 64

/-- An integer in range is read from its text. -/
theorem ofPlain?_decimalInt {n : ℤ} (h : isWord n = true) :
    ofPlain? (decimalInt n) = some (.int n) := by
  simp only [isWord, Bool.and_eq_true, decide_eq_true_eq] at h
  cases n with
  | ofNat m =>
    refine ofPlain?_toDigits (.inl rfl) (m := m) (by simp [decimalInt, decimal]) ?_
    rw [if_pos rfl, if_pos (Int.ofNat_lt.1 h.2)]
    rfl
  | negSucc m =>
    refine ofPlain?_toDigits (.inr rfl) (m := m + 1) (by simp [decimalInt, decimal]) ?_
    have hLess : m + 1 ≤ twoTo 63 := by
      have := h.1
      omega
    rw [if_neg (by simp), if_pos hLess]
    rfl

/-- What is read as an integer is in range. -/
theorem isWord_of_readInteger {cs : List Char} {n : ℤ} (h : readInteger cs = .value n) :
    isWord n = true := by
  have hBounds : -(twoTo 63 : ℤ) ≤ n ∧ n < twoTo 64 := by
    rw [readInteger] at h
    split at h
    · rename_i m hm
      split at h
      · rename_i hLess
        rw [← Integer.value.inj h]
        omega
      · split at h <;> cases h
    · split at h
      · rename_i m hm
        split at h
        · rename_i hLess
          have hPos : (0 : ℤ) < twoTo 64 := by decide
          rw [← Integer.value.inj h]
          omega
        · split at h <;> cases h
      · cases h
  simpa [isWord] using hBounds

/-! ### Floating point numbers -/

/-- A decimal is written with a point or an exponent. -/
theorem exists_mark_layout (d : Binary64.Decimal) : ∃ c ∈ d.layout.toList, isDigit c = false := by
  obtain ⟨c, r, hText, -, -⟩ := exists_decimal d.digits
  unfold Binary64.Decimal.layout
  simp only [hText]
  split
  · exact ⟨'.', by simp, rfl⟩
  · split
    · exact ⟨'.', by simp, rfl⟩
    · split
      · exact ⟨'.', by simp, rfl⟩
      · split
        · exact ⟨'e', by simp, rfl⟩
        · exact ⟨'.', by simp, rfl⟩
        · exact ⟨'e', by simp, rfl⟩

/-- The unsigned decimal of a number of the format is read as the number. -/
theorem readUnsigned?_finite {negative : Bool} {m : ℕ} {q : ℤ}
    (h : Binary64.isCanonical (.finite negative m q) = true) :
    Binary64.readUnsigned? negative
      (if m = 0 then "0.0" else (Binary64.shortest m q).layout).toList =
        some (.finite negative m q) := by
  obtain ⟨hTop, hLeast, hMost, hNormal⟩ := Binary64.isCanonical_finite_iff.1 h
  split
  · rename_i hZero
    subst hZero
    obtain rfl : q = Binary64.minExponent := hNormal.resolve_left (by decide)
    cases negative <;> decide
  · rename_i hNonzero
    have hPos := Nat.pos_of_ne_zero hNonzero
    obtain ⟨digits, exponent, hRead, hValue⟩ :=
      Binary64.readUnsigned?_layout negative (Binary64.shortest m q)
    have hRounds := Binary64.roundsTo_shortest (q := q) hPos hTop
    rw [hRead, Binary64.ofDecimal_eq hPos h (hValue ▸ hRounds)]

/-- A number of the format is read from its text. -/
theorem ofPlain?_text {x : Binary64} (h : x.isCanonical = true) :
    ofPlain? x.text = some (.float x) := by
  cases x with
  | nan => rfl
  | infinite negative => cases negative <;> rfl
  | finite negative m q =>
    obtain ⟨d, r, hUnsigned, hSpells⟩ := exists_unsigned m q
    obtain ⟨c, hMem, hMark⟩ : ∃ c ∈ d :: r, isDigit c = false := by
      rw [← hUnsigned]
      split
      · exact ⟨'.', by decide, rfl⟩
      · exact exists_mark_layout _
    have hRead := readUnsigned?_finite h
    rw [hUnsigned] at hRead
    have hNotAll : r.all isDigit = false := by
      rcases List.mem_cons.1 hMem with rfl | hMem
      · rw [hSpells.digit] at hMark
        cases hMark
      · exact List.all_eq_false.2 ⟨c, hMem, by simp [hMark]⟩
    -- Behind either sign the same digits are no integer, and the decimal is read with the sign.
    have hSigned : ∀ sign, SpellsNumber sign d r →
        (Binary64.finite negative m q).text.toList = sign ++ d :: r →
        Binary64.read? (sign ++ d :: r) = some (.finite negative m q) →
        ofPlain? (Binary64.finite negative m q).text = some (.float (.finite negative m q)) := by
      intro sign hSign hText hReads
      have hZero : hasLeadingZero (sign ++ d :: r) = false := by
        rw [hasLeadingZero_of_spellsNumber hSign, hNotAll, Bool.and_false]
      rw [ofPlain?_of_spellsNumber hText hSign, hText, readInteger_of_spellsNumber hSign hZero,
        readDigits?_eq_none hMem hMark, hReads]
      simp only [hZero]
      rfl
    cases negative with
    | false =>
      refine hSigned [] hSpells (by simpa [Binary64.text] using hUnsigned) ?_
      rw [List.nil_append, Binary64.read?]
      · exact hRead
      · rintro t hEq
        exact absurd ((List.cons.inj hEq).1 ▸ hSpells.digit) (by decide)
      · rintro t hEq
        exact absurd ((List.cons.inj hEq).1 ▸ hSpells.digit) (by decide)
    | true =>
      exact hSigned ['-'] ⟨.inr rfl, hSpells.digit, hSpells.chars⟩
        (by simp [Binary64.text, hUnsigned]) hRead

/-- What is read as a floating point number is one of the format. -/
theorem isCanonical_of_readUnsigned? {negative : Bool} {cs : List Char} {x : Binary64}
    (h : Binary64.readUnsigned? negative cs = some x) : x.isCanonical = true := by
  rw [Binary64.readUnsigned?] at h
  dsimp only at h
  split at h
  · cases h
  · split at h
    · rw [← Option.some.inj h]
      exact Binary64.isCanonical_ofDecimal ..
    · split at h
      · obtain ⟨e, -, rfl⟩ := Option.map_eq_some_iff.1 h
        exact Binary64.isCanonical_ofDecimal ..
      · cases h

theorem isCanonical_of_readFloat? {cs : List Char} {x : Binary64} (h : readFloat? cs = some x) :
    x.isCanonical = true := by
  unfold readFloat? at h
  dsimp only at h
  split at h
  · rw [← Option.some.inj h]
    rfl
  · split at h
    · rw [← Option.some.inj h]
      rfl
    · split at h
      · rw [← Option.some.inj h]
        rfl
      · split at h
        · cases h
        · cases h
        · have hRead := (Option.filter_eq_some_iff.1 h).1
          unfold Binary64.read? at hRead
          split at hRead <;> exact isCanonical_of_readUnsigned? hRead

/-! ### Texts -/

/-- A text that is read as a text is read as itself. -/
theorem eq_of_ofPlain?_eq_str {s t : String} (h : ofPlain? s = some (.str t)) : t = s := by
  unfold ofPlain? at h
  dsimp only at h
  split at h
  · cases h
  · split at h
    · cases h
    · split at h
      · cases h
      · cases h
      · split at h
        · exact (Yaml.str.inj (Option.some.inj h)).symm
        · split at h
          · cases h
          · exact (Yaml.str.inj (Option.some.inj h)).symm

/-- A text that is written without quotes is read as a text. -/
theorem ofPlain?_of_styleOf {s : String} (h : styleOf s = .plain) : ofPlain? s = some (.str s) := by
  have hAmbiguous : isAmbiguous s = false := by
    unfold styleOf at h
    dsimp only at h
    split at h
    · split at h <;> cases h
    · split at h
      · rename_i hPlain
        simp only [Bool.and_eq_true, Bool.not_eq_true'] at hPlain
        exact hPlain.1
      · split at h <;> cases h
  unfold isAmbiguous at hAmbiguous
  split at hAmbiguous
  · rename_i t ht
    rw [ht, eq_of_ofPlain?_eq_str ht]
  · cases hAmbiguous

end Yaml

end KubeCompose
