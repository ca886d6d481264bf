import KubeCompose.Number.Digits
import Mathlib.Algebra.Group.Nat.Defs

/-!
# Digits that are read back

The digits of a number are read as the number, in decimal and in upper-case hexadecimal.
-/

namespace KubeCompose.Number

theorem readDigitsFrom?_append (base acc : Nat) (cs ds : List Char) :
    readDigitsFrom? base acc (cs ++ ds) =
      (readDigitsFrom? base acc cs).bind fun n => readDigitsFrom? base n ds := by
  induction cs generalizing acc with
  | nil => rfl
  | cons c cs ih =>
    simp only [List.cons_append, readDigitsFrom?]
    split
    · split
      · exact ih _
      · rfl
    · rfl

/-- Digits that are not empty are read from nothing. -/
theorem readDigits?_of_ne_nil (base : Nat) {cs : List Char} (h : cs ≠ []) :
    readDigits? base cs = readDigitsFrom? base 0 cs := by
  cases cs with
  | nil => exact absurd rfl h
  | cons c r => rfl

theorem digitValue?_digitChar {d : Nat} (h : d < 16) : digitValue? d.digitChar = some d := by
  revert d
  decide

theorem digitValue?_toUpper_digitChar {d : Nat} (h : d < 16) :
    digitValue? d.digitChar.toUpper = some d := by
  revert d
  decide

/-- The digits of a number, in either case, are read as the number. -/
theorem readDigitsFrom?_map_toDigits (base : Nat) {f : Char → Char} (hBase : 1 < base)
    (hValue : ∀ d < base, digitValue? (f d.digitChar) = some d) (n : Nat) :
    readDigitsFrom? base 0 ((Nat.toDigits base n).map f) = some n := by
  induction n using Nat.strongRecOn with
  | ind n ih =>
    rw [Nat.toDigits_eq_if hBase]
    split
    · rename_i hLess
      simp [readDigitsFrom?, hValue n hLess, hLess]
    · rename_i hLess
      have hMod : n % base < base := Nat.mod_lt _ (by omega)
      rw [List.map_append, readDigitsFrom?_append,
        ih (n / base) (Nat.div_lt_self (by omega) hBase)]
      simp [readDigitsFrom?, hValue _ hMod, hMod, Nat.div_add_mod']

@[simp] theorem readDigits?_toDigits (n : Nat) :
    readDigits? 10 (Nat.toDigits 10 n) = some n := by
  have h := readDigitsFrom?_map_toDigits (f := id) 10 (by decide)
    (fun d hd => digitValue?_digitChar (by omega)) n
  rwa [List.map_id, ← readDigits?_of_ne_nil 10 Nat.toDigits_ne_nil] at h

theorem exists_digitChar {c : Char} (h : isDigit c = true) : ∃ d < 10, c = d.digitChar := by
  simp only [isDigit, Bool.and_eq_true, decide_eq_true_eq] at h
  have hLow : 48 ≤ c.toNat := h.1
  have hHigh : c.toNat ≤ 57 := h.2
  have hAll : ∀ d < 10, Char.ofNat (48 + d) = d.digitChar := by decide
  refine ⟨c.toNat - 48, by omega, ?_⟩
  rw [← hAll _ (by omega), Nat.add_sub_cancel' hLow, Char.ofNat_toNat]

theorem digitValue?_eq_of_isDigit {c : Char} (h : isDigit c = true) :
    digitValue? c = some (c.toNat - '0'.toNat) ∧ c.toNat - '0'.toNat < 10 := by
  simp only [isDigit, Bool.and_eq_true, decide_eq_true_eq] at h
  have hLow : 48 ≤ c.toNat := h.1
  have hHigh : c.toNat ≤ 57 := h.2
  refine ⟨by rw [digitValue?, if_pos h], ?_⟩
  show c.toNat - 48 < 10
  omega

theorem isDigit_of_digitValue? {c : Char} {d : Nat} (h : digitValue? c = some d) (hd : d < 10) :
    isDigit c = true := by
  unfold digitValue? at h
  split at h
  · simpa [isDigit] using ‹_›
  · split at h
    · simp at h; omega
    · split at h
      · simp at h; omega
      · cases h

/-- What is read in decimal are digits, as their number. -/
theorem readDigitsFrom?_ten_eq_some_iff {acc n : Nat} {cs : List Char} :
    readDigitsFrom? 10 acc cs = some n ↔
      (∀ c ∈ cs, isDigit c = true) ∧ n = Nat.ofDigitChars 10 cs acc := by
  induction cs generalizing acc with
  | nil =>
    rw [readDigitsFrom?, Nat.ofDigitChars_nil, Option.some.injEq]
    exact ⟨fun h => ⟨by simp, h.symm⟩, fun h => h.2.symm⟩
  | cons c r ih =>
    rw [readDigitsFrom?, Nat.ofDigitChars_cons, List.forall_mem_cons]
    by_cases hc : isDigit c = true
    · obtain ⟨hValue, hLess⟩ := digitValue?_eq_of_isDigit hc
      rw [hValue]
      simp only
      rw [if_pos hLess, ih, Nat.mul_comm acc 10, and_iff_right hc]
    · refine iff_of_false ?_ fun h => hc h.1.1
      split
      · rename_i d hd
        rw [if_neg fun hLess => hc (isDigit_of_digitValue? hd hLess)]
        simp
      · simp

theorem readDigits?_ten_eq_some_iff {n : Nat} {cs : List Char} :
    readDigits? 10 cs = some n ↔
      cs ≠ [] ∧ (∀ c ∈ cs, isDigit c = true) ∧ n = Nat.ofDigitChars 10 cs 0 := by
  cases cs with
  | nil => simp [readDigits?]
  | cons c r =>
    rw [readDigits?, readDigitsFrom?_ten_eq_some_iff]
    · simp
    · simp

theorem isDigit_of_mem_toDigits {n : Nat} {c : Char} (h : c ∈ Nat.toDigits 10 n) :
    isDigit c = true := by
  induction n using Nat.strongRecOn with
  | ind n ih =>
    have hDigit : ∀ d < 10, isDigit d.digitChar = true := by decide
    rw [Nat.toDigits_eq_if (by decide)] at h
    split at h
    · rename_i hLess
      rw [List.mem_singleton.1 h]
      exact hDigit n hLess
    · rename_i hLess
      rcases List.mem_append.1 h with h | h
      · exact ih _ (Nat.div_lt_self (by omega) (by decide)) h
      · rw [List.mem_singleton.1 h]
        exact hDigit _ (Nat.mod_lt _ (by decide))

/-- Zeros behind digits multiply by powers of ten. -/
theorem readDigitsFrom?_zeros (acc n : Nat) :
    readDigitsFrom? 10 acc (List.replicate n '0') = some (acc * 10 ^ n) := by
  induction n generalizing acc with
  | zero => simp [readDigitsFrom?]
  | succ n ih =>
    rw [List.replicate_succ, readDigitsFrom?]
    simp only [show digitValue? '0' = some 0 from rfl, show 0 < 10 from by decide, if_true, ih]
    rw [Nat.add_zero, Nat.mul_assoc, Nat.pow_succ']

/-- Zeros in front of digits are worth nothing. -/
theorem readDigitsFrom?_zeros_append {base : Nat} (hBase : 0 < base) (n : Nat) (cs : List Char) :
    readDigitsFrom? base 0 (List.replicate n '0' ++ cs) = readDigitsFrom? base 0 cs := by
  induction n with
  | zero => rfl
  | succ n ih =>
    rw [List.replicate_succ, List.cons_append, readDigitsFrom?]
    simp only [show digitValue? '0' = some 0 from rfl, hBase, if_true, Nat.zero_mul, Nat.zero_add]
    exact ih

theorem hexadecimal_ne_nil (width n : Nat) : hexadecimal width n ≠ [] := by
  simp [hexadecimal, Nat.toDigits_ne_nil]

/-- A number in hexadecimal is read as the number. -/
@[simp] theorem readDigits?_hexadecimal (width n : Nat) :
    readDigits? 16 (hexadecimal width n) = some n := by
  rw [readDigits?_of_ne_nil 16 (hexadecimal_ne_nil width n)]
  simp only [hexadecimal]
  rw [readDigitsFrom?_zeros_append (by decide)]
  exact readDigitsFrom?_map_toDigits _ (by decide) (fun d hd => digitValue?_toUpper_digitChar hd) n

theorem length_hexadecimal {width n : Nat} (hWidth : 0 < width) (h : n < 16 ^ width) :
    (hexadecimal width n).length = width := by
  have hLength := (Nat.length_toDigits_le_iff (b := 16) (by decide) hWidth).2 h
  simp [hexadecimal]
  omega

/-- The digits of hexadecimal numbers. -/
theorem hexadecimal_mem {width n : Nat} {c : Char} (h : c ∈ hexadecimal width n) :
    ∃ d < 16, c = d.digitChar.toUpper := by
  have hDigits : ∀ n : Nat, ∀ c ∈ Nat.toDigits 16 n, ∃ d < 16, c = d.digitChar := by
    intro n
    induction n using Nat.strongRecOn with
    | ind n ih =>
      intro c hc
      rw [Nat.toDigits_eq_if (by decide)] at hc
      split at hc
      · rename_i hLess
        exact ⟨n, hLess, List.mem_singleton.1 hc⟩
      · rename_i hLess
        rcases List.mem_append.1 hc with hc | hc
        · exact ih _ (Nat.div_lt_self (by omega) (by decide)) c hc
        · exact ⟨_, Nat.mod_lt _ (by decide), List.mem_singleton.1 hc⟩
  simp only [hexadecimal, List.mem_append, List.mem_replicate, List.mem_map] at h
  rcases h with ⟨-, rfl⟩ | ⟨d, hd, rfl⟩
  · exact ⟨0, by decide, rfl⟩
  · obtain ⟨e, he, rfl⟩ := hDigits n d hd
    exact ⟨e, he, rfl⟩

end KubeCompose.Number
