import KubeCompose.Number.Binary64
import Mathlib.Algebra.Order.Field.Power
import Mathlib.Data.Rat.Cast.Order
import Mathlib.Tactic.FieldSimp
import Mathlib.Tactic.Linarith
import Mathlib.Tactic.NormNum
import Mathlib.Tactic.Positivity
import Mathlib.Tactic.Ring

/-!
# Rounding to binary floating point numbers

A positive ratio is rounded on the grid on which it has 53 binary digits, or on the finest one. The
result is a number of the format (`isCanonical`), and every ratio of the interval around a number of
the format is rounded to it.
-/

namespace KubeCompose.Number.Binary64

/-! ### The nearest natural number -/

/-- A natural number nearest to a rational one; at the same distance from two, the even one. -/
structure Nearest (x : ℚ) (m : ℕ) : Prop where
  low : 2 * (m : ℚ) - 1 ≤ 2 * x
  high : 2 * x ≤ 2 * m + 1
  even : 2 * x = 2 * m + 1 ∨ 2 * x = 2 * m - 1 → m % 2 = 0

theorem Nearest.not_lt {x : ℚ} {m n : ℕ} (hm : Nearest x m) (hn : Nearest x n) : ¬ m < n := by
  intro hLess
  have hSucc : (m : ℚ) + 1 ≤ n := by exact_mod_cast hLess
  have hHigh := hm.high
  have hLow := hn.low
  have hTie : n = m + 1 := by
    have : (n : ℚ) ≤ m + 1 := by linarith
    have : n ≤ m + 1 := by exact_mod_cast this
    omega
  have hCast : (n : ℚ) = m + 1 := by exact_mod_cast hTie
  have hEven := hm.even (.inl (by linarith))
  have hEven' := hn.even (.inr (by linarith))
  omega

theorem Nearest.unique {x : ℚ} {m n : ℕ} (hm : Nearest x m) (hn : Nearest x n) : m = n :=
  Nat.le_antisymm (Nat.le_of_not_lt (hn.not_lt hm)) (Nat.le_of_not_lt (hm.not_lt hn))

theorem nearest_div_iff {n d m : ℕ} (hd : 0 < d) :
    Nearest ((n : ℚ) / d) m ↔ 2 * (m * d) ≤ 2 * n + d ∧ 2 * n ≤ 2 * (m * d) + d ∧
      (2 * n = 2 * (m * d) + d ∨ 2 * n + d = 2 * (m * d) → m % 2 = 0) := by
  have hPos : (0 : ℚ) < d := by exact_mod_cast hd
  have hLow : 2 * (m : ℚ) - 1 ≤ 2 * ((n : ℚ) / d) ↔ 2 * (m * d) ≤ 2 * n + d := by
    rw [← mul_div_assoc, le_div_iff₀ hPos, ← Nat.cast_le (α := ℚ)]
    push_cast
    constructor <;> intro h <;> linarith
  have hHigh : 2 * ((n : ℚ) / d) ≤ 2 * m + 1 ↔ 2 * n ≤ 2 * (m * d) + d := by
    rw [← mul_div_assoc, div_le_iff₀ hPos, ← Nat.cast_le (α := ℚ)]
    push_cast
    constructor <;> intro h <;> linarith
  have hTop : 2 * ((n : ℚ) / d) = 2 * m + 1 ↔ 2 * n = 2 * (m * d) + d := by
    rw [← mul_div_assoc, div_eq_iff hPos.ne', ← Nat.cast_inj (R := ℚ)]
    push_cast
    constructor <;> intro h <;> linarith
  have hBottom : 2 * ((n : ℚ) / d) = 2 * m - 1 ↔ 2 * n + d = 2 * (m * d) := by
    rw [← mul_div_assoc, div_eq_iff hPos.ne', ← Nat.cast_inj (R := ℚ)]
    push_cast
    constructor <;> intro h <;> linarith
  constructor
  · intro h
    exact ⟨hLow.1 h.low, hHigh.1 h.high, fun hTie => h.even (hTie.imp hTop.2 hBottom.2)⟩
  · rintro ⟨h, h', hEven⟩
    exact ⟨hLow.2 h, hHigh.2 h', fun hTie => hEven (hTie.imp hTop.1 hBottom.1)⟩

theorem cast_twoTo (n : ℕ) : ((twoTo n : ℕ) : ℚ) = 2 ^ n := Nat.cast_pow 2 n

/-- A quotient on a grid of powers of two. -/
theorem scaled_div (num den : ℕ) (q : ℤ) :
    ((if q < 0 then num * twoTo q.natAbs else num : ℕ) : ℚ) /
      ((if q < 0 then den else den * twoTo q.natAbs : ℕ) : ℚ) = num / den / 2 ^ q := by
  split
  · rename_i hNeg
    obtain ⟨k, rfl⟩ : ∃ k : ℕ, q = -k := ⟨q.natAbs, by omega⟩
    simp only [Int.natAbs_neg, Int.natAbs_natCast, Nat.cast_mul, cast_twoTo, zpow_neg,
      zpow_natCast]
    field_simp
  · rename_i hNonneg
    obtain ⟨k, rfl⟩ : ∃ k : ℕ, q = k := ⟨q.natAbs, by omega⟩
    simp only [Int.natAbs_natCast, Nat.cast_mul, cast_twoTo, zpow_natCast]
    field_simp

theorem nearest_roundedQuotient (num : ℕ) {den : ℕ} (hDen : 0 < den) (q : ℤ) :
    Nearest (num / den / 2 ^ q) (roundedQuotient num den q) := by
  have hPos : 0 < (if q < 0 then den else den * twoTo q.natAbs : ℕ) := by
    split
    · exact hDen
    · exact Nat.mul_pos hDen (Nat.pow_pos (by decide))
  rw [← scaled_div]
  unfold roundedQuotient
  generalize (if q < 0 then num * twoTo q.natAbs else num) = n
  revert hPos
  generalize (if q < 0 then den else den * twoTo q.natAbs) = d
  intro hPos
  rw [nearest_div_iff hPos]
  have hSplit := Nat.div_add_mod n d
  have hLess := Nat.mod_lt n hPos
  rw [Nat.mul_comm d] at hSplit
  dsimp only
  generalize n / d = a at *
  generalize n % d = r at *
  have hSucc : (a + 1) * d = a * d + d := by ring
  split
  · omega
  · split
    · rw [hSucc]
      omega
    · split
      · omega
      · rw [hSucc]
        omega

/-! ### The grid -/

/-- The exponent of the grid on which a ratio has 53 binary digits. -/
def gridExponent (num den : ℕ) : ℤ :=
  let guess : ℤ := (Nat.log2 num : ℤ) - (Nat.log2 den : ℤ) - 52
  let atGuess :=
    if guess < 0 then num * twoTo guess.natAbs / den else num / (den * twoTo guess.natAbs)
  if atGuess < twoTo 52 then guess - 1 else guess

theorem ofRatio_of_pos (negative : Bool) {num : ℕ} (den : ℕ) (h : 0 < num) :
    ofRatio negative num den =
      let q := max minExponent (gridExponent num den)
      let m := roundedQuotient num den q
      let (m, q) := if m = twoTo 53 then (twoTo 52, q + 1) else (m, q)
      if m = 0 then zero negative
      else if maxExponent < q then .infinite negative
      else .finite negative m q := by
  rw [ofRatio, if_neg (Nat.ne_of_gt h)]
  rfl

/-- A ratio lies between the powers of two that its logarithms give. -/
theorem div_bounds_of_log2 {num den : ℕ} (hNum : 0 < num) (hDen : 0 < den) :
    (2 : ℚ) ^ ((Nat.log2 num : ℤ) - Nat.log2 den - 1) < num / den ∧
      (num : ℚ) / den < 2 ^ ((Nat.log2 num : ℤ) - Nat.log2 den + 1) := by
  have hNumLow : ((2 : ℚ) ^ Nat.log2 num) ≤ num := by
    exact_mod_cast Nat.log2_self_le (Nat.ne_of_gt hNum)
  have hNumHigh : (num : ℚ) < 2 ^ (Nat.log2 num + 1) := by exact_mod_cast Nat.lt_log2_self
  have hDenLow : ((2 : ℚ) ^ Nat.log2 den) ≤ den := by
    exact_mod_cast Nat.log2_self_le (Nat.ne_of_gt hDen)
  have hDenHigh : (den : ℚ) < 2 ^ (Nat.log2 den + 1) := by exact_mod_cast Nat.lt_log2_self
  have hPos : (0 : ℚ) < den := by exact_mod_cast hDen
  generalize Nat.log2 num = a at *
  generalize Nat.log2 den = b at *
  constructor
  · rw [lt_div_iff₀ hPos]
    calc (2 : ℚ) ^ ((a : ℤ) - b - 1) * den
        < 2 ^ ((a : ℤ) - b - 1) * 2 ^ (b + 1) := by
          exact mul_lt_mul_of_pos_left hDenHigh (by positivity)
      _ = 2 ^ a := by
          rw [← zpow_natCast, ← zpow_natCast, ← zpow_add₀ (by norm_num)]
          congr 1
          push_cast
          ring
      _ ≤ num := hNumLow
  · rw [div_lt_iff₀ hPos]
    calc (num : ℚ) < 2 ^ (a + 1) := hNumHigh
      _ = 2 ^ ((a : ℤ) - b + 1) * 2 ^ b := by
          rw [← zpow_natCast, ← zpow_natCast, ← zpow_add₀ (by norm_num)]
          congr 1
          push_cast
          ring
      _ ≤ 2 ^ ((a : ℤ) - b + 1) * den := by
          exact mul_le_mul_of_nonneg_left hDenLow (by positivity)

theorem gridExponent_spec {num den : ℕ} (hNum : 0 < num) (hDen : 0 < den) :
    (2 : ℚ) ^ 52 ≤ num / den / 2 ^ gridExponent num den ∧
      (num : ℚ) / den / 2 ^ gridExponent num den < 2 ^ 53 := by
  obtain ⟨hLow, hHigh⟩ := div_bounds_of_log2 hNum hDen
  unfold gridExponent
  dsimp only
  generalize hGuess : (Nat.log2 num : ℤ) - Nat.log2 den - 52 = guess
  have hLow' : (2 : ℚ) ^ 51 < num / den / 2 ^ guess := by
    have hExponent : ((51 : ℕ) : ℤ) + guess = Nat.log2 num - Nat.log2 den - 1 := by omega
    rw [lt_div_iff₀ (by positivity), ← zpow_natCast, ← zpow_add₀ (by norm_num), hExponent]
    exact hLow
  have hHigh' : (num : ℚ) / den / 2 ^ guess < 2 ^ 53 := by
    have hExponent : ((53 : ℕ) : ℤ) + guess = Nat.log2 num - Nat.log2 den + 1 := by omega
    rw [div_lt_iff₀ (by positivity), ← zpow_natCast, ← zpow_add₀ (by norm_num), hExponent]
    exact hHigh
  have hFloor : (if guess < 0 then num * twoTo guess.natAbs / den
      else num / (den * twoTo guess.natAbs)) < twoTo 52 ↔ (num : ℚ) / den / 2 ^ guess < 2 ^ 52 := by
    have hPos : 0 < (if guess < 0 then den else den * twoTo guess.natAbs : ℕ) := by
      split
      · exact hDen
      · exact Nat.mul_pos hDen (Nat.pow_pos (by decide))
    have hSame : (if guess < 0 then num * twoTo guess.natAbs / den
        else num / (den * twoTo guess.natAbs)) = (if guess < 0 then num * twoTo guess.natAbs
          else num) / (if guess < 0 then den else den * twoTo guess.natAbs) := by
      split <;> rfl
    rw [hSame, ← scaled_div, Nat.div_lt_iff_lt_mul hPos,
      div_lt_iff₀ (by exact_mod_cast hPos), ← cast_twoTo, ← Nat.cast_mul, Nat.cast_lt]
  by_cases hBelow : (num : ℚ) / den / 2 ^ guess < 2 ^ 52
  · have hDouble : (num : ℚ) / den / 2 ^ (guess - 1) = 2 * (num / den / 2 ^ guess) := by
      rw [zpow_sub_one₀ (by norm_num)]
      field_simp
    rw [if_pos (hFloor.2 hBelow), hDouble]
    constructor
    · calc (2 : ℚ) ^ 52 = 2 * 2 ^ 51 := by norm_num
        _ ≤ _ := by linarith
    · calc 2 * ((num : ℚ) / den / 2 ^ guess) < 2 * 2 ^ 52 := by linarith
        _ = 2 ^ 53 := by norm_num
  · rw [if_neg fun h => hBelow (hFloor.1 h)]
    exact ⟨not_lt.1 hBelow, hHigh'⟩

/-- Grids of a ratio with 53 digits and with fewer. -/
theorem grid_le {r : ℚ} {a b : ℤ} (hHigh : r / 2 ^ a < 2 ^ 53) (hLow : 2 ^ 52 ≤ r / 2 ^ b) :
    b ≤ a := by
  rw [div_lt_iff₀ (by positivity), ← zpow_natCast, ← zpow_add₀ (by norm_num)] at hHigh
  rw [le_div_iff₀ (by positivity), ← zpow_natCast, ← zpow_add₀ (by norm_num)] at hLow
  have hLess := (zpow_lt_zpow_iff_right₀ (by norm_num : (1 : ℚ) < 2)).1 (lt_of_le_of_lt hLow hHigh)
  push_cast at hLess
  omega

theorem gridExponent_eq {num den : ℕ} (hNum : 0 < num) (hDen : 0 < den) {q : ℤ}
    (hLow : (2 : ℚ) ^ 52 ≤ num / den / 2 ^ q) (hHigh : (num : ℚ) / den / 2 ^ q < 2 ^ 53) :
    gridExponent num den = q :=
  let h := gridExponent_spec hNum hDen
  Int.le_antisymm (grid_le hHigh h.1) (grid_le h.2 hLow)

/-! ### Numbers of the format -/

/-- Whether a number is one of the format: a finite one has 53 binary digits, or the smallest
exponent and fewer. -/
def isCanonical : Binary64 → Bool
  | .finite _ m q =>
    m < twoTo 53 && minExponent ≤ q && q ≤ maxExponent && (twoTo 52 ≤ m || q == minExponent)
  | _ => true

theorem isCanonical_finite_iff {negative : Bool} {m : ℕ} {q : ℤ} :
    isCanonical (.finite negative m q) = true ↔ m < 2 ^ 53 ∧ minExponent ≤ q ∧ q ≤ maxExponent ∧
      (2 ^ 52 ≤ m ∨ q = minExponent) := by
  simp only [isCanonical, Bool.and_eq_true, Bool.or_eq_true, decide_eq_true_eq, beq_iff_eq,
    and_assoc]
  rfl

theorem isCanonical_zero (negative : Bool) : isCanonical (zero negative) = true := by
  cases negative <;> decide

/-- A ratio is rounded to a number of the format. -/
theorem isCanonical_ofRatio (negative : Bool) (num : ℕ) {den : ℕ} (hDen : 0 < den) :
    isCanonical (ofRatio negative num den) = true := by
  rcases Nat.eq_zero_or_pos num with rfl | hNum
  · exact isCanonical_zero negative
  obtain ⟨hLow, hHigh⟩ := gridExponent_spec hNum hDen
  rw [ofRatio_of_pos negative den hNum]
  dsimp only
  generalize gridExponent num den = g at *
  have hNearest := nearest_roundedQuotient num hDen (max minExponent g)
  have hLess : (num : ℚ) / den / 2 ^ max minExponent g < 2 ^ 53 := by
    refine lt_of_le_of_lt ?_ hHigh
    refine div_le_div_of_nonneg_left (by positivity) (by positivity) ?_
    exact zpow_le_zpow_right₀ (by norm_num) (le_max_right ..)
  generalize roundedQuotient num den (max minExponent g) = m at *
  have hTop : m ≤ 2 ^ 53 := by
    have : (m : ℚ) < 2 ^ 53 + 1 := by linarith [hNearest.low]
    have : m < 2 ^ 53 + 1 := by exact_mod_cast this
    omega
  have hGrid : 2 ^ 52 ≤ m ∨ max minExponent g = minExponent := by
    rcases le_total g minExponent with h | h
    · exact .inr (max_eq_left h)
    · left
      rw [max_eq_right h] at hNearest
      have : (2 : ℚ) ^ 53 ≤ 2 * m + 1 := by linarith [hNearest.high]
      have : 2 ^ 53 ≤ 2 * m + 1 := by exact_mod_cast this
      omega
  have hLeast : minExponent ≤ max minExponent g := le_max_left ..
  generalize max minExponent g = q at *
  by_cases hCarry : m = twoTo 53
  · simp only [if_pos hCarry]
    rw [if_neg (by decide)]
    split
    · rfl
    · rename_i hMost
      exact isCanonical_finite_iff.2 ⟨by decide, by omega, by omega, .inl (Nat.le_refl _)⟩
  · have hBelow : m ≠ 2 ^ 53 := hCarry
    simp only [if_neg hCarry]
    split
    · exact isCanonical_zero negative
    · split
      · rfl
      · exact isCanonical_finite_iff.2 ⟨by omega, hLeast, by omega, hGrid⟩

/-! ### The interval around a number -/

/-- How far down the interval around a number reaches, in quarters of its last digit: half as far
below a power of two. -/
def reach (m : ℕ) (q : ℤ) : ℕ := if m = twoTo 52 ∧ minExponent < q then 1 else 2

/-- A rational number in the interval around the number `m * 2 ^ q`. -/
structure RoundsTo (m : ℕ) (q : ℤ) (r : ℚ) : Prop where
  low : (4 * (m : ℚ) - reach m q) * 2 ^ (q - 2) ≤ r
  high : r ≤ (4 * (m : ℚ) + 2) * 2 ^ (q - 2)
  even : r = (4 * (m : ℚ) - reach m q) * 2 ^ (q - 2) ∨ r = (4 * (m : ℚ) + 2) * 2 ^ (q - 2) →
    m % 2 = 0

/-- Inside the interval a number is at no tie. -/
theorem RoundsTo.of_lt {m : ℕ} {q : ℤ} {r : ℚ}
    (hLow : (4 * (m : ℚ) - reach m q) * 2 ^ (q - 2) < r)
    (hHigh : r < (4 * (m : ℚ) + 2) * 2 ^ (q - 2)) : RoundsTo m q r :=
  ⟨hLow.le, hHigh.le, fun hTie => absurd hTie (not_or.2 ⟨hLow.ne', hHigh.ne⟩)⟩

theorem reach_le (m : ℕ) (q : ℤ) : (1 : ℚ) ≤ reach m q ∧ (reach m q : ℚ) ≤ 2 := by
  unfold reach
  split <;> norm_num

namespace RoundsTo

variable {m : ℕ} {q : ℤ} {r : ℚ} (h : RoundsTo m q r)
include h

/-- The bounds of the interval on the grid of the number. -/
theorem quarters : 4 * (m : ℚ) - reach m q ≤ 4 * (r / 2 ^ q) ∧ 4 * (r / 2 ^ q) ≤ 4 * m + 2 := by
  have hQuarter : (2 : ℚ) ^ (q - 2) = 2 ^ q / 4 := by
    rw [zpow_sub₀ (by norm_num)]
    norm_num
  have hLow := h.low
  have hHigh := h.high
  rw [hQuarter] at hLow hHigh
  have hPos : (0 : ℚ) < 2 ^ q := by positivity
  constructor
  · rw [← mul_div_assoc, le_div_iff₀ hPos]
    linarith
  · rw [← mul_div_assoc, div_le_iff₀ hPos]
    linarith

theorem pos (hPos : 0 < m) : 0 < r := by
  have hOne : (1 : ℚ) ≤ m := by exact_mod_cast hPos
  have hReach := (reach_le m q).2
  refine lt_of_lt_of_le (mul_pos ?_ (by positivity)) h.low
  linarith

/-- The number is nearest on its own grid. -/
theorem nearest : Nearest (r / 2 ^ q) m := by
  obtain ⟨hLow, hHigh⟩ := h.quarters
  obtain ⟨hLeast, hMost⟩ := reach_le m q
  have hQuarter : (2 : ℚ) ^ (q - 2) = 2 ^ q / 4 := by
    rw [zpow_sub₀ (by norm_num)]
    norm_num
  have hSelf : r = r / 2 ^ q * 2 ^ q := by field_simp
  refine ⟨by linarith, by linarith, ?_⟩
  rintro (hTie | hTie)
  · refine h.even (.inr ?_)
    have hx : r / 2 ^ q = m + 1 / 2 := by linarith
    rw [hSelf, hx, hQuarter]
    ring
  · have hTwo : (reach m q : ℚ) = 2 := by linarith
    refine h.even (.inl ?_)
    have hx : r / 2 ^ q = m - 1 / 2 := by linarith
    rw [hSelf, hx, hQuarter, hTwo]
    ring

end RoundsTo

/-- A ratio in the interval around a number of the format is rounded to it. -/
theorem ofRatio_eq {negative : Bool} {m : ℕ} {q : ℤ} (hPos : 0 < m)
    (hCanonical : isCanonical (.finite negative m q) = true) {num den : ℕ} (hDen : 0 < den)
    (h : RoundsTo m q (num / den)) : ofRatio negative num den = .finite negative m q := by
  obtain ⟨hTop, hLeast, hMost, hGrid⟩ := isCanonical_finite_iff.1 hCanonical
  have hDen' : (0 : ℚ) < den := by exact_mod_cast hDen
  have hNum : 0 < num := by
    have hRatio := h.pos hPos
    have : (0 : ℚ) < num := by
      have := mul_pos hRatio hDen'
      rwa [div_mul_cancel₀ _ hDen'.ne'] at this
    exact_mod_cast this
  obtain ⟨hLow, hHigh⟩ := h.quarters
  have hReach := reach_le m q
  have hTop' : (m : ℚ) + 1 ≤ 2 ^ 53 := by exact_mod_cast hTop
  rw [ofRatio_of_pos negative den hNum]
  dsimp only
  have hSame : max minExponent (gridExponent num den) = q →
      (let m' := roundedQuotient num den (max minExponent (gridExponent num den))
      let (m', q') := if m' = twoTo 53 then
        (twoTo 52, max minExponent (gridExponent num den) + 1)
        else (m', max minExponent (gridExponent num den))
      if m' = 0 then zero negative
      else if maxExponent < q' then .infinite negative
      else Binary64.finite negative m' q') = .finite negative m q := by
    intro hGridExponent
    rw [hGridExponent]
    have hRounded : roundedQuotient num den q = m :=
      (nearest_roundedQuotient num hDen q).unique h.nearest
    have hNotTop : m ≠ twoTo 53 := Nat.ne_of_lt hTop
    dsimp only
    rw [hRounded, if_neg hNotTop]
    dsimp only
    rw [if_neg (Nat.ne_of_gt hPos), if_neg (by omega)]
  by_cases hFull : (2 : ℚ) ^ 52 ≤ num / den / 2 ^ q
  · have hExponent := gridExponent_eq hNum hDen hFull (by linarith)
    exact hSame (by rw [hExponent]; exact max_eq_right hLeast)
  · have hBelow := not_le.1 hFull
    by_cases hFinest : q = minExponent
    · have hLess : gridExponent num den ≤ q :=
        grid_le (lt_trans hBelow (by norm_num)) (gridExponent_spec hNum hDen).1
      exact hSame (by rw [← hFinest]; exact max_eq_left hLess)
    · -- Just below a power of two the ratio has a grid twice as fine, and is rounded up to it.
      have hNormal : 2 ^ 52 ≤ m := hGrid.resolve_right hFinest
      have hPower : m = 2 ^ 52 := by
        refine Nat.le_antisymm (Nat.le_of_not_lt fun hMore => ?_) hNormal
        have : (2 : ℚ) ^ 52 + 1 ≤ m := by exact_mod_cast hMore
        linarith
      have hOne : (reach m q : ℚ) = 1 := by
        rw [reach, if_pos ⟨hPower, by omega⟩]
        norm_num
      have hCast : (m : ℚ) = 2 ^ 52 := by exact_mod_cast hPower
      have hDouble : (num : ℚ) / den / 2 ^ (q - 1) = 2 * (num / den / 2 ^ q) := by
        rw [zpow_sub_one₀ (by norm_num)]
        field_simp
      have hExponent : gridExponent num den = q - 1 := by
        refine gridExponent_eq hNum hDen ?_ ?_
        · rw [hDouble]
          linarith
        · rw [hDouble]
          linarith
      have hMax : max minExponent (q - 1) = q - 1 := max_eq_right (by omega)
      have hRounded : roundedQuotient num den (q - 1) = twoTo 53 := by
        refine (nearest_roundedQuotient num hDen (q - 1)).unique ⟨?_, ?_, fun _ => by decide⟩
        · rw [hDouble, cast_twoTo]
          linarith
        · rw [hDouble, cast_twoTo]
          linarith
      rw [hExponent, hMax, hRounded, if_pos rfl]
      dsimp only
      have hNonzero : twoTo 52 ≠ 0 := by decide
      rw [Int.sub_add_cancel, if_neg hNonzero, if_neg (by omega), hPower]
      rfl

end KubeCompose.Number.Binary64
