import KubeCompose.Proofs.Rounding

/-!
# The shortest decimal

A decimal that rounds to a number is one in the interval around it. Seventeen digits always suffice,
so the decimal that is written for a number is read as the number.
-/

namespace KubeCompose.Number.Binary64

theorem cast_tenTo (n : ℕ) : ((tenTo n : ℕ) : ℚ) = 10 ^ n := Nat.cast_pow 10 n

/-- The number that a decimal stands for. -/
def Decimal.value (d : Decimal) : ℚ := d.digits * 10 ^ d.exponent

/-! ### Intervals -/

section Interval

variable {m : ℕ} {q : ℤ}

theorem scale_div (n : ℕ) (q : ℤ) :
    ((n * (if q < 0 then 1 else twoTo q.natAbs) : ℕ) : ℚ) /
      ((if q < 0 then twoTo q.natAbs else 1 : ℕ) : ℚ) = n * 2 ^ q := by
  split
  · rename_i hNeg
    obtain ⟨k, rfl⟩ : ∃ k : ℕ, q = -k := ⟨q.natAbs, by omega⟩
    simp only [Int.natAbs_neg, Int.natAbs_natCast, Nat.mul_one, cast_twoTo, zpow_neg, zpow_natCast]
    field_simp
  · rename_i hNonneg
    obtain ⟨k, rfl⟩ : ∃ k : ℕ, q = k := ⟨q.natAbs, by omega⟩
    simp [cast_twoTo]

theorem interval_den_pos (m : ℕ) (q : ℤ) : 0 < (interval m q).den := by
  unfold interval
  dsimp only
  split
  · exact Nat.pow_pos (by decide)
  · exact Nat.one_pos

theorem interval_low (hPos : 0 < m) : ((interval m q).low : ℚ) / (interval m q).den =
    (4 * (m : ℚ) - reach m q) * 2 ^ (q - 2) := by
  have hLess : reach m q ≤ 4 * m := by
    unfold reach
    split <;> omega
  have hCast : ((4 * m - reach m q : ℕ) : ℚ) = 4 * m - reach m q := by
    push_cast [Nat.cast_sub hLess]
    ring
  rw [← hCast, ← scale_div]
  rfl

theorem interval_mid : ((interval m q).mid : ℚ) / (interval m q).den = m * 2 ^ q := by
  have hFour : (m : ℚ) * 2 ^ q = ((4 * m : ℕ) : ℚ) * 2 ^ (q - 2) := by
    rw [zpow_sub₀ (by norm_num)]
    push_cast
    ring
  rw [hFour, ← scale_div]
  rfl

theorem interval_high : ((interval m q).high : ℚ) / (interval m q).den =
    (4 * (m : ℚ) + 2) * 2 ^ (q - 2) := by
  have hCast : ((4 * m + 2 : ℕ) : ℚ) = 4 * m + 2 := by push_cast; ring
  rw [← hCast, ← scale_div]
  rfl

/-- A decimal over the denominator of an interval. -/
theorem scaled_spec (i : Interval) (d : Decimal) (n : ℕ) (hDen : 0 < i.den) :
    (n * (i.scaled d).2 ≤ (i.scaled d).1 ↔ (n : ℚ) / i.den ≤ d.value) ∧
      ((i.scaled d).1 ≤ n * (i.scaled d).2 ↔ d.value ≤ (n : ℚ) / i.den) := by
  have hPos : (0 : ℚ) < i.den := by exact_mod_cast hDen
  obtain ⟨hFactor, hValue⟩ : (0 : ℚ) < (i.scaled d).2 ∧
      ((i.scaled d).1 : ℚ) = d.value * i.den * (i.scaled d).2 := by
    unfold Interval.scaled Decimal.value
    split
    · rename_i hNeg
      obtain ⟨k, hk⟩ : ∃ k : ℕ, d.exponent = -k := ⟨d.exponent.natAbs, by omega⟩
      simp only [hk, Int.natAbs_neg, Int.natAbs_natCast, Nat.cast_mul, cast_tenTo, zpow_neg,
        zpow_natCast]
      exact ⟨by positivity, by field_simp⟩
    · rename_i hNonneg
      obtain ⟨k, hk⟩ : ∃ k : ℕ, d.exponent = k := ⟨d.exponent.natAbs, by omega⟩
      simp only [hk, Int.natAbs_natCast, Nat.cast_mul, cast_tenTo, zpow_natCast, Nat.cast_one,
        mul_one]
      exact ⟨one_pos, trivial⟩
  constructor
  · rw [div_le_iff₀ hPos, ← Nat.cast_le (α := ℚ), hValue, Nat.cast_mul,
      mul_le_mul_iff_left₀ hFactor]
  · rw [le_div_iff₀ hPos, ← Nat.cast_le (α := ℚ), hValue, Nat.cast_mul,
      mul_le_mul_iff_left₀ hFactor]

/-- The decimals of an interval are those that round to the number. -/
theorem contains_iff (hPos : 0 < m) (d : Decimal) :
    (interval m q).contains d = true ↔ RoundsTo m q d.value := by
  obtain ⟨hLow, hLow'⟩ :=
    scaled_spec (interval m q) d (interval m q).low (interval_den_pos m q)
  obtain ⟨hHigh', hHigh⟩ :=
    scaled_spec (interval m q) d (interval m q).high (interval_den_pos m q)
  rw [interval_low hPos] at hLow hLow'
  rw [interval_high] at hHigh hHigh'
  have hClosed : (interval m q).closed = decide (m % 2 = 0) := rfl
  unfold Interval.contains
  dsimp only
  rw [hClosed]
  by_cases hEven : m % 2 = 0
  · simp only [hEven, decide_true, if_true, Bool.and_eq_true, decide_eq_true_eq, hLow, hHigh]
    exact ⟨fun h => ⟨h.1, h.2, fun _ => hEven⟩, fun h => ⟨h.low, h.high⟩⟩
  · simp only [hEven, decide_false, Bool.false_eq_true, if_false, Bool.and_eq_true,
      decide_eq_true_eq]
    rw [← not_le, ← not_le, hLow', hHigh', not_le, not_le]
    constructor
    · rintro ⟨h, h'⟩
      exact ⟨h.le, h'.le, fun hTie => absurd hTie (not_or.2 ⟨h.ne', h'.ne⟩)⟩
    · intro h
      exact ⟨lt_of_le_of_ne h.low fun hEq => hEven (h.even (.inl hEq.symm)),
        lt_of_le_of_ne h.high fun hEq => hEven (h.even (.inr hEq))⟩

end Interval

/-! ### Decimal grids -/

theorem decimalLength_bounds {n : ℕ} (hPos : 0 < n) :
    (10 : ℚ) ^ ((decimalLength n : ℤ) - 1) ≤ n ∧ (n : ℚ) < 10 ^ (decimalLength n : ℤ) := by
  have hLength : 0 < decimalLength n := List.length_pos_of_ne_nil Nat.toDigits_ne_nil
  have hLess : n < 10 ^ decimalLength n :=
    (Nat.length_toDigits_le_iff (b := 10) (by decide) hLength).1 (Nat.le_refl _)
  constructor
  · obtain ⟨k, hk⟩ : ∃ k, decimalLength n = k + 1 := ⟨decimalLength n - 1, by omega⟩
    have hLow : 10 ^ k ≤ n := by
      rcases Nat.eq_zero_or_pos k with rfl | hk'
      · exact hPos
      · refine Nat.le_of_not_lt fun hNot => ?_
        have := (Nat.length_toDigits_le_iff (b := 10) (n := n) (by decide) hk').2 hNot
        rw [decimalLength] at hk
        omega
    have hExponent : ((k + 1 : ℕ) : ℤ) - 1 = k := by push_cast; ring
    rw [hk, hExponent, zpow_natCast]
    exact_mod_cast hLow
  · rw [zpow_natCast]
    exact_mod_cast hLess

/-- A ratio is compared with a power of ten. -/
theorem le_div_iff_of_tenTo (num : ℕ) {den : ℕ} (hDen : 0 < den) (e : ℤ) :
    (if e < 0 then den ≤ num * tenTo e.natAbs else den * tenTo e.natAbs ≤ num) ↔
      (10 : ℚ) ^ e ≤ num / den := by
  have hPos : (0 : ℚ) < den := by exact_mod_cast hDen
  rw [le_div_iff₀ hPos]
  split
  · rename_i hNeg
    obtain ⟨k, rfl⟩ : ∃ k : ℕ, e = -k := ⟨e.natAbs, by omega⟩
    rw [Int.natAbs_neg, Int.natAbs_natCast, ← Nat.cast_le (α := ℚ), Nat.cast_mul, cast_tenTo,
      zpow_neg, zpow_natCast, ← div_eq_inv_mul, div_le_iff₀ (by positivity)]
  · rename_i hNonneg
    obtain ⟨k, rfl⟩ : ∃ k : ℕ, e = k := ⟨e.natAbs, by omega⟩
    rw [Int.natAbs_natCast, ← Nat.cast_le (α := ℚ), Nat.cast_mul, cast_tenTo, zpow_natCast,
      mul_comm]

theorem decimalExponent_spec {num den : ℕ} (hNum : 0 < num) (hDen : 0 < den) :
    (10 : ℚ) ^ decimalExponent num den ≤ num / den ∧
      (num : ℚ) / den < 10 ^ (decimalExponent num den + 1) := by
  have hPos : (0 : ℚ) < den := by exact_mod_cast hDen
  obtain ⟨hNumLow, hNumHigh⟩ := decimalLength_bounds hNum
  obtain ⟨hDenLow, hDenHigh⟩ := decimalLength_bounds hDen
  unfold decimalExponent
  dsimp only
  generalize (decimalLength num : ℤ) = a at *
  generalize (decimalLength den : ℤ) = b at *
  have hLow : (10 : ℚ) ^ (a - b - 1) ≤ num / den := by
    rw [le_div_iff₀ hPos]
    calc (10 : ℚ) ^ (a - b - 1) * den ≤ 10 ^ (a - b - 1) * 10 ^ b :=
          mul_le_mul_of_nonneg_left hDenHigh.le (by positivity)
      _ = 10 ^ (a - 1) := by
          rw [← zpow_add₀ (by norm_num)]
          congr 1
          ring
      _ ≤ num := hNumLow
  have hHigh : (num : ℚ) / den < 10 ^ (a - b + 1) := by
    rw [div_lt_iff₀ hPos]
    calc (num : ℚ) < 10 ^ a := hNumHigh
      _ = 10 ^ (a - b + 1) * 10 ^ (b - 1) := by
          rw [← zpow_add₀ (by norm_num)]
          congr 1
          ring
      _ ≤ 10 ^ (a - b + 1) * den := mul_le_mul_of_nonneg_left hDenLow (by positivity)
  have hReached := le_div_iff_of_tenTo num hDen (a - b)
  by_cases h : (10 : ℚ) ^ (a - b) ≤ num / den
  · rw [if_pos (hReached.2 h)]
    exact ⟨h, hHigh⟩
  · rw [if_neg fun h' => h (hReached.1 h'), Int.sub_add_cancel]
    exact ⟨hLow, not_le.1 h⟩

/-- The neighbours of a ratio on a grid of decimals. -/
theorem decimal_neighbours (num : ℕ) {den : ℕ} (hDen : 0 < den) (p : ℤ) {digits : ℕ}
    (h : digits = if p < 0 then num * tenTo p.natAbs / den else num / (den * tenTo p.natAbs)) :
    Decimal.value ⟨digits, p⟩ ≤ num / den ∧ (num : ℚ) / den < Decimal.value ⟨digits + 1, p⟩ := by
  have hPos : (0 : ℚ) < den := by exact_mod_cast hDen
  unfold Decimal.value
  dsimp only
  rw [le_div_iff₀ hPos, div_lt_iff₀ hPos]
  split at h
  · rename_i hNeg
    obtain ⟨k, rfl⟩ : ∃ k : ℕ, p = -k := ⟨p.natAbs, by omega⟩
    rw [Int.natAbs_neg, Int.natAbs_natCast] at h
    have hLow : digits * den ≤ num * tenTo k := by rw [h]; exact Nat.div_mul_le_self ..
    have hHigh : num * tenTo k < (digits + 1) * den := by
      rw [h]
      exact Nat.lt_mul_of_div_lt (Nat.lt_succ_self _) hDen
    rw [← Nat.cast_le (α := ℚ), Nat.cast_mul, Nat.cast_mul, cast_tenTo] at hLow
    rw [← Nat.cast_lt (α := ℚ), Nat.cast_mul, Nat.cast_mul, cast_tenTo] at hHigh
    rw [zpow_neg, zpow_natCast]
    constructor
    · field_simp
      linarith
    · field_simp
      linarith
  · rename_i hNonneg
    obtain ⟨k, rfl⟩ : ∃ k : ℕ, p = k := ⟨p.natAbs, by omega⟩
    rw [Int.natAbs_natCast] at h
    have hGrid : 0 < den * tenTo k := Nat.mul_pos hDen (Nat.pow_pos (by decide))
    have hLow : digits * (den * tenTo k) ≤ num := by rw [h]; exact Nat.div_mul_le_self ..
    have hHigh : num < (digits + 1) * (den * tenTo k) := by
      rw [h]
      exact Nat.lt_mul_of_div_lt (Nat.lt_succ_self _) hGrid
    rw [← Nat.cast_le (α := ℚ), Nat.cast_mul, Nat.cast_mul, cast_tenTo] at hLow
    rw [← Nat.cast_lt (α := ℚ), Nat.cast_mul, Nat.cast_mul, cast_tenTo] at hHigh
    rw [zpow_natCast]
    constructor <;> linarith

/-! ### The decimal that is written -/

section Shortest

variable {m : ℕ} {q : ℤ}

/-- Of the two neighbours of a number one is taken when one rounds to the number. -/
theorem withDigits?_spec (i : Interval) (n : ℕ) (hDen : 0 < i.den) :
    ∃ digits, Decimal.value ⟨digits, decimalExponent i.mid i.den + 1 - n⟩ ≤ i.mid / i.den ∧
      (i.mid : ℚ) / i.den < Decimal.value ⟨digits + 1, decimalExponent i.mid i.den + 1 - n⟩ ∧
      match i.withDigits? n with
      | some d => i.contains d = true
      | none => i.contains ⟨digits, decimalExponent i.mid i.den + 1 - n⟩ = false ∧
          i.contains ⟨digits + 1, decimalExponent i.mid i.den + 1 - n⟩ = false := by
  unfold Interval.withDigits?
  dsimp only
  generalize decimalExponent i.mid i.den + 1 - n = p
  generalize hDigits : (if p < 0 then i.mid * tenTo p.natAbs / i.den
    else i.mid / (i.den * tenTo p.natAbs)) = digits
  obtain ⟨hDown, hUp⟩ := decimal_neighbours i.mid hDen p hDigits.symm
  refine ⟨digits, hDown, hUp, ?_⟩
  cases hFirst : i.contains ⟨digits, p⟩ <;> cases hSecond : i.contains ⟨digits + 1, p⟩
  · exact ⟨rfl, rfl⟩
  · exact hSecond
  · exact hFirst
  · dsimp only
    split
    · rename_i d hTaken
      split at hTaken
      · exact Option.some.inj hTaken ▸ hFirst
      · split at hTaken
        · exact Option.some.inj hTaken ▸ hSecond
        · split at hTaken
          · exact Option.some.inj hTaken ▸ hFirst
          · exact Option.some.inj hTaken ▸ hSecond
    · rename_i hTaken
      split at hTaken
      · cases hTaken
      · split at hTaken
        · cases hTaken
        · split at hTaken <;> cases hTaken

/-- Of seventeen digits some round to the number: the grid of these decimals is finer than the
interval around it. -/
theorem withDigits?_seventeen_ne_none (hPos : 0 < m) (hTop : m < 2 ^ 53) :
    (interval m q).withDigits? 17 ≠ none := by
  have hMid : 0 < (interval m q).mid := by
    have : 0 < 4 * m * (if q - 2 < 0 then 1 else twoTo (q - 2).natAbs) := by
      refine Nat.mul_pos (by omega) ?_
      split
      · exact Nat.one_pos
      · exact Nat.pow_pos (by decide)
    exact this
  have hDen := interval_den_pos m q
  obtain ⟨hExponent, -⟩ := decimalExponent_spec hMid hDen
  obtain ⟨digits, hDown, hUp, hTaken⟩ := withDigits?_spec (interval m q) 17 hDen
  intro hNone
  rw [hNone] at hTaken
  obtain ⟨hNotDown, hNotUp⟩ := hTaken
  rw [interval_mid] at hExponent hDown hUp
  generalize decimalExponent (interval m q).mid (interval m q).den = e at *
  have hOne : (1 : ℚ) ≤ m := by exact_mod_cast hPos
  have hQuarter : (m : ℚ) * 2 ^ q = 4 * m * 2 ^ (q - 2) := by
    rw [zpow_sub₀ (by norm_num)]
    ring
  obtain ⟨hLeast, hMost⟩ := reach_le m q
  have hUnit : (0 : ℚ) < 2 ^ (q - 2) := by positivity
  -- Neither neighbour is in the interval, so it lies between them.
  have hLow : Decimal.value ⟨digits, e + 1 - (17 : ℕ)⟩ ≤
      (4 * (m : ℚ) - reach m q) * 2 ^ (q - 2) := by
    refine not_lt.1 fun hInside => ?_
    have hHigh : Decimal.value ⟨digits, e + 1 - (17 : ℕ)⟩ < (4 * (m : ℚ) + 2) * 2 ^ (q - 2) := by
      linarith
    have := (contains_iff hPos _).2 (.of_lt hInside hHigh)
    rw [hNotDown] at this
    exact Bool.false_ne_true this
  have hHigh : (4 * (m : ℚ) + 2) * 2 ^ (q - 2) ≤
      Decimal.value ⟨digits + 1, e + 1 - (17 : ℕ)⟩ := by
    refine not_lt.1 fun hInside => ?_
    have hLow : (4 * (m : ℚ) - reach m q) * 2 ^ (q - 2) <
        Decimal.value ⟨digits + 1, e + 1 - (17 : ℕ)⟩ := by
      have := mul_pos (lt_of_lt_of_le one_pos hLeast) hUnit
      linarith
    have := (contains_iff hPos _).2 (.of_lt hLow hInside)
    rw [hNotUp] at this
    exact Bool.false_ne_true this
  have hStep : Decimal.value ⟨digits + 1, e + 1 - (17 : ℕ)⟩ =
      Decimal.value ⟨digits, e + 1 - (17 : ℕ)⟩ + 10 ^ (e + 1 - ((17 : ℕ) : ℤ)) := by
    unfold Decimal.value
    push_cast
    ring
  have hTen : (10 : ℚ) ^ e = 10 ^ 16 * 10 ^ (e + 1 - ((17 : ℕ) : ℤ)) := by
    rw [← zpow_natCast, ← zpow_add₀ (by norm_num)]
    congr 1
    push_cast
    ring
  have hWide : (10 : ℚ) ^ 16 * (reach m q + 2) ≤ 4 * m := by
    refine le_of_mul_le_mul_right ?_ hUnit
    linarith
  have hWide' : 10 ^ 16 * (reach m q + 2) ≤ 4 * m := by exact_mod_cast hWide
  unfold reach at hWide'
  split at hWide'
  · rename_i hPower
    rw [hPower.1] at hWide'
    exact absurd hWide' (by decide)
  · omega

/-- The decimal that is written rounds to the number. -/
theorem exists_found (hPos : 0 < m) (hTop : m < 2 ^ 53) :
    ∃ d, (List.range 17).findSome? (fun n => (interval m q).withDigits? (n + 1)) = some d ∧
      RoundsTo m q d.value := by
  cases hFound : (List.range 17).findSome? fun n => (interval m q).withDigits? (n + 1) with
  | none =>
    exact absurd (List.findSome?_eq_none_iff.1 hFound 16 (by decide))
      (withDigits?_seventeen_ne_none hPos hTop)
  | some d =>
    obtain ⟨n, -, hTaken⟩ := List.exists_of_findSome?_eq_some hFound
    obtain ⟨_, -, -, hSpec⟩ := withDigits?_spec (interval m q) (n + 1) (interval_den_pos m q)
    rw [hTaken] at hSpec
    exact ⟨d, rfl, (contains_iff hPos d).1 hSpec⟩

theorem value_withoutZeros (fuel : ℕ) (d : Decimal) : (d.withoutZeros fuel).value = d.value := by
  induction fuel generalizing d with
  | zero => rfl
  | succ fuel ih =>
    rw [Decimal.withoutZeros]
    split
    · rename_i hZero
      rw [ih]
      have hDigits : d.digits = d.digits / 10 * 10 := by omega
      unfold Decimal.value
      dsimp only
      rw [zpow_add_one₀ (by norm_num), mul_comm _ (10 : ℚ), ← mul_assoc]
      congr 1
      exact_mod_cast hDigits.symm
    · rfl

theorem roundsTo_shortest (hPos : 0 < m) (hTop : m < 2 ^ 53) :
    RoundsTo m q (shortest m q).value := by
  obtain ⟨d, hFound, hRounds⟩ := exists_found (q := q) hPos hTop
  rw [shortest, hFound, Option.getD_some, value_withoutZeros]
  exact hRounds

end Shortest

/-! ### Decimals that are read -/

/-- A decimal in the interval around a number of the format is within the range that is looked at
more closely. -/
theorem magnitude_bounds {negative : Bool} {m : ℕ} {q : ℤ} (hPos : 0 < m)
    (hCanonical : isCanonical (.finite negative m q) = true) {d : Decimal}
    (h : RoundsTo m q d.value) :
    0 < d.digits ∧ -330 ≤ (decimalLength d.digits : ℤ) + d.exponent ∧
      (decimalLength d.digits : ℤ) + d.exponent ≤ 310 := by
  obtain ⟨hTop, hLeast, hMost, -⟩ := isCanonical_finite_iff.1 hCanonical
  have hDigits : 0 < d.digits := by
    refine Nat.pos_of_ne_zero fun hZero => ?_
    have := h.pos hPos
    rw [Decimal.value, hZero, Nat.cast_zero, zero_mul] at this
    exact lt_irrefl _ this
  obtain ⟨hLow, hHigh⟩ := decimalLength_bounds hDigits
  have hTen : ∀ e : ℤ, (0 : ℚ) < 10 ^ e := fun e => by positivity
  have hBelow : (10 : ℚ) ^ ((decimalLength d.digits : ℤ) - 1 + d.exponent) ≤ d.value := by
    rw [zpow_add₀ (by norm_num), Decimal.value]
    exact mul_le_mul_of_nonneg_right hLow (hTen _).le
  have hAbove : d.value < (10 : ℚ) ^ ((decimalLength d.digits : ℤ) + d.exponent) := by
    rw [zpow_add₀ (by norm_num), Decimal.value]
    exact mul_lt_mul_of_pos_right hHigh (hTen _)
  have hSmall : (10 : ℚ) ^ (-324 : ℤ) ≤ d.value := by
    have hOne : (1 : ℚ) ≤ m := by exact_mod_cast hPos
    have hReach := (reach_le m q).2
    calc (10 : ℚ) ^ (-324 : ℤ) ≤ 2 * 2 ^ (-1076 : ℤ) := by
          have hPower : (2 : ℕ) ^ 1075 ≤ 10 ^ 324 := by decide +kernel
          have hPower' : (2 : ℚ) ^ 1075 ≤ 10 ^ 324 := by exact_mod_cast hPower
          have hTwo : (2 : ℚ) * 2 ^ (-1076 : ℤ) = (2 ^ 1075)⁻¹ := by
            rw [← zpow_one_add₀ (by norm_num), ← zpow_natCast, ← zpow_neg]
            rfl
          rw [hTwo, zpow_neg]
          exact inv_anti₀ (by positivity) hPower'
      _ ≤ 2 * 2 ^ (q - 2) := by
        refine mul_le_mul_of_nonneg_left (zpow_le_zpow_right₀ (by norm_num) ?_) (by norm_num)
        rw [minExponent] at hLeast
        omega
      _ ≤ (4 * (m : ℚ) - reach m q) * 2 ^ (q - 2) :=
        mul_le_mul_of_nonneg_right (by linarith) (by positivity)
      _ ≤ d.value := h.low
  have hLarge : d.value < (10 : ℚ) ^ (309 : ℤ) := by
    have hTop' : (m : ℚ) + 1 ≤ 2 ^ 53 := by exact_mod_cast hTop
    calc d.value ≤ (4 * (m : ℚ) + 2) * 2 ^ (q - 2) := h.high
      _ ≤ 2 ^ 55 * 2 ^ (q - 2) := mul_le_mul_of_nonneg_right (by linarith) (by positivity)
      _ ≤ 2 ^ 55 * 2 ^ (969 : ℤ) := by
        refine mul_le_mul_of_nonneg_left (zpow_le_zpow_right₀ (by norm_num) ?_) (by norm_num)
        rw [maxExponent] at hMost
        omega
      _ < 10 ^ (309 : ℤ) := by
          have hPower : (2 : ℕ) ^ 1024 < 10 ^ 309 := by decide +kernel
          have hPower' : (2 : ℚ) ^ 1024 < 10 ^ 309 := by exact_mod_cast hPower
          have hTwo : (2 : ℚ) ^ 55 * 2 ^ (969 : ℤ) = 2 ^ 1024 := by
            rw [← zpow_natCast, ← zpow_add₀ (by norm_num), ← zpow_natCast]
            rfl
          rw [hTwo]
          exact hPower'
  have hLess := (zpow_lt_zpow_iff_right₀ (by norm_num : (1 : ℚ) < 10)).1
    (lt_of_le_of_lt hSmall hAbove)
  have hLess' := (zpow_lt_zpow_iff_right₀ (by norm_num : (1 : ℚ) < 10)).1
    (lt_of_le_of_lt hBelow hLarge)
  exact ⟨hDigits, by omega, by omega⟩

/-- A decimal in the interval around a number of the format is read as the number. -/
theorem ofDecimal_eq {negative : Bool} {m : ℕ} {q : ℤ} (hPos : 0 < m)
    (hCanonical : isCanonical (.finite negative m q) = true) {digits : ℕ} {exponent : ℤ}
    (h : RoundsTo m q (Decimal.value ⟨digits, exponent⟩)) :
    ofDecimal negative digits exponent = .finite negative m q := by
  obtain ⟨hDigits, hLeast, hMost⟩ := magnitude_bounds hPos hCanonical h
  dsimp only at hDigits hLeast hMost
  rw [ofDecimal, if_neg (Nat.ne_of_gt hDigits)]
  dsimp only
  rw [if_neg (by omega), if_neg (by omega)]
  split
  · rename_i hNeg
    obtain ⟨k, rfl⟩ : ∃ k : ℕ, exponent = -k := ⟨exponent.natAbs, by omega⟩
    refine ofRatio_eq hPos hCanonical (Nat.pow_pos (by decide)) ?_
    have hValue : (digits : ℚ) / (tenTo (-(k : ℤ)).natAbs : ℕ) =
        Decimal.value ⟨digits, -(k : ℤ)⟩ := by
      rw [Decimal.value, Int.natAbs_neg, Int.natAbs_natCast, cast_tenTo, zpow_neg, zpow_natCast]
      exact div_eq_mul_inv ..
    rw [hValue]
    exact h
  · rename_i hNonneg
    obtain ⟨k, rfl⟩ : ∃ k : ℕ, exponent = k := ⟨exponent.natAbs, by omega⟩
    refine ofRatio_eq hPos hCanonical Nat.one_pos ?_
    have hValue : ((digits * tenTo (k : ℤ).natAbs : ℕ) : ℚ) / (1 : ℕ) =
        Decimal.value ⟨digits, (k : ℤ)⟩ := by
      rw [Decimal.value, Int.natAbs_natCast, Nat.cast_mul, cast_tenTo, zpow_natCast, Nat.cast_one,
        div_one]
    rw [hValue]
    exact h

theorem isCanonical_ofDecimal (negative : Bool) (digits : ℕ) (exponent : ℤ) :
    isCanonical (ofDecimal negative digits exponent) = true := by
  rw [ofDecimal]
  split
  · exact isCanonical_zero negative
  · dsimp only
    split
    · rfl
    · split
      · exact isCanonical_zero negative
      · split
        · exact isCanonical_ofRatio negative _ (Nat.pow_pos (by decide))
        · exact isCanonical_ofRatio negative _ Nat.one_pos

end KubeCompose.Number.Binary64
