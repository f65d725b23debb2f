import TableTalk.Proofs.Number.Rounding

/-!
# Numbers of few digits

Binary64 tells numbers of up to fifteen digits apart, whichever way they are written
(`Decimal.nearest_le_nearest_iff`): two of them differ by more than their roundings can
bring them together (`FewDigits.le_mul_sub`).  The digits that the database leaves out of
such a number are zeros (`Decimal.value_kept`).
-/

namespace TableTalk

/-- A number of at most fifteen digits and a power of ten that binary64 has room for. -/
def FewDigits (x : ℚ) : Prop :=
  ∃ m e : ℤ, |m| < 10 ^ 15 ∧ -300 ≤ e ∧ e ≤ 290 ∧ x = m * 10 ^ e

/-- A greater power of ten can be brought down to a lesser one. -/
theorem mul_zpow_eq {e f : ℤ} (h : e ≤ f) (m : ℤ) :
    (m : ℚ) * 10 ^ f = (m * 10 ^ (f - e).toNat : ℤ) * 10 ^ e := by
  rw [Int.cast_mul, Int.cast_pow, mul_assoc, Int.cast_ofNat, ← zpow_natCast,
    Int.toNat_of_nonneg (by omega), ← zpow_add₀ (by norm_num), Int.sub_add_cancel]

theorem eq_of_mul_zpow_eq {m n e : ℤ} (h : (m : ℚ) * 10 ^ e = n * 10 ^ e) : m = n := by
  exact_mod_cast mul_right_cancel₀ (zpow_ne_zero e (by norm_num)) h

namespace FewDigits

variable {x y : ℚ}

theorem zero : FewDigits 0 :=
  ⟨0, 0, by norm_num, by norm_num, by norm_num, by norm_num⟩

theorem abs (h : FewDigits x) : FewDigits |x| := by
  obtain ⟨m, e, hm, hLow, hHigh, rfl⟩ := h
  refine ⟨|m|, e, by rwa [abs_abs], hLow, hHigh, ?_⟩
  have hPower : (0 : ℚ) ≤ 10 ^ e := by positivity
  rw [abs_mul, abs_of_nonneg hPower, Int.cast_abs]

/-- Two numbers are whole multiples of one power of ten, and one of them has few digits. -/
theorem exists_aligned (hx : FewDigits x) (hy : FewDigits y) :
    ∃ m n e : ℤ, x = m * 10 ^ e ∧ y = n * 10 ^ e ∧ (|m| < 10 ^ 15 ∨ |n| < 10 ^ 15) := by
  obtain ⟨m, e, hm, -, -, rfl⟩ := hx
  obtain ⟨n, f, hn, -, -, rfl⟩ := hy
  rcases le_total e f with h | h
  · exact ⟨m, n * 10 ^ (f - e).toNat, e, rfl, mul_zpow_eq h n, Or.inl hm⟩
  · exact ⟨m * 10 ^ (e - f).toNat, n, f, mul_zpow_eq h m, rfl, Or.inr hn⟩

/-- Numbers of few digits lie apart. -/
theorem le_mul_sub (hx : FewDigits x) (hy : FewDigits y) (h0 : 0 ≤ x) (h : x < y) :
    y ≤ 10 ^ 15 * (y - x) := by
  obtain ⟨m, n, e, rfl, rfl, hFew⟩ := exists_aligned hx hy
  have hPower : (0 : ℚ) < 10 ^ e := by positivity
  have hm : 0 ≤ m := by
    exact_mod_cast nonneg_of_mul_nonneg_left h0 hPower
  have hmn : m < n := by
    exact_mod_cast lt_of_mul_lt_mul_right h hPower.le
  -- The distance is a multiple of the common power.
  have hWhole : n ≤ 10 ^ 15 * (n - m) := by
    rw [abs_of_nonneg hm, abs_of_nonneg (hm.trans hmn.le)] at hFew
    omega
  calc (n : ℚ) * 10 ^ e ≤ (10 ^ 15 * (n - m) : ℤ) * 10 ^ e := by
        exact mul_le_mul_of_nonneg_right (by exact_mod_cast hWhole) hPower.le
    _ = 10 ^ 15 * (n * 10 ^ e - m * 10 ^ e) := by
        push_cast
        ring

/-- Above zero such numbers are neither too small nor too large for all their digits. -/
theorem bounds (h : FewDigits x) (h0 : 0 < x) : 10 ^ (-300 : ℤ) ≤ x ∧ x ≤ 10 ^ (305 : ℤ) := by
  obtain ⟨m, e, hm, hLow, hHigh, rfl⟩ := h
  have hPower : (0 : ℚ) < 10 ^ e := by positivity
  have hOne : 1 ≤ m := by
    have hPositive : 0 < m := by
      exact_mod_cast pos_of_mul_pos_left h0 hPower.le
    omega
  have hDigits : (m : ℚ) ≤ 10 ^ (15 : ℤ) := by
    have hLe : m ≤ 10 ^ 15 := le_of_lt (lt_of_abs_lt hm)
    exact_mod_cast hLe
  constructor
  · calc (10 : ℚ) ^ (-300 : ℤ) ≤ 10 ^ e := zpow_le_zpow_right₀ (by norm_num) hLow
      _ ≤ m * 10 ^ e := le_mul_of_one_le_left hPower.le (by exact_mod_cast hOne)
  · calc (m : ℚ) * 10 ^ e ≤ 10 ^ (15 : ℤ) * 10 ^ e := mul_le_mul_of_nonneg_right hDigits hPower.le
      _ = 10 ^ (15 + e) := (zpow_add₀ (by norm_num) _ _).symm
      _ ≤ 10 ^ (305 : ℤ) := zpow_le_zpow_right₀ (by norm_num) (by omega)

end FewDigits

namespace Decimal

theorem scale_pos : 0 < scale := by
  unfold scale
  -- The power is never computed.
  generalize 1074 = exponent
  exact Nat.two_pow_pos exponent

/-- The rounding error of a number of few digits. -/
theorem Rounds.dist_le_of_fewDigits {x : ℚ} {v : ℕ} (hx : FewDigits x) (h0 : 0 ≤ x)
    (h : Rounds (x * scale) v) : 2 ^ 53 * |x * scale - v| ≤ x * scale := by
  rcases h0.eq_or_lt with rfl | hPositive
  · rw [zero_mul] at h ⊢
    rw [h.unique rounds_zero]
    simp
  · obtain ⟨hLow, hHigh⟩ := hx.bounds hPositive
    have hLowest : (2 : ℚ) ^ 52 * 10 ^ (300 : ℤ) ≤ scale := by
      exact_mod_cast scale_bounds.2.2.1
    have hHighest : 2 * ((10 : ℚ) ^ (305 : ℤ) * scale) ≤ infinity := by
      exact_mod_cast scale_bounds.2.2.2
    have hScale : (0 : ℚ) ≤ scale := Nat.cast_nonneg _
    generalize (scale : ℚ) = one at *
    refine h.dist_le ?_ (le_trans ?_ hHighest)
    · calc (2 : ℚ) ^ 52 = 10 ^ (-300 : ℤ) * (2 ^ 52 * 10 ^ (300 : ℤ)) := by
            rw [mul_left_comm, ← zpow_add₀ (by norm_num)]
            norm_num
        _ ≤ 10 ^ (-300 : ℤ) * one := mul_le_mul_of_nonneg_left hLowest (by positivity)
        _ ≤ x * one := mul_le_mul_of_nonneg_right hLow hScale
    · have := mul_le_mul_of_nonneg_right hHigh hScale
      linarith

variable {a b d : Decimal}

/-- The roundings of numbers of few digits stay apart. -/
theorem size_lt_size (ha : FewDigits a.value) (hb : FewDigits b.value)
    (h : |a.value| < |b.value|) : a.size < b.size := by
  have hA := (rounds_size a).dist_le_of_fewDigits ha.abs (abs_nonneg _)
  have hB := (rounds_size b).dist_le_of_fewDigits hb.abs (abs_nonneg _)
  have hApart := ha.abs.le_mul_sub hb.abs (abs_nonneg _) h
  have hScale : (0 : ℚ) < scale := Nat.cast_pos.mpr scale_pos
  generalize (scale : ℚ) = one at *
  have hAbove := neg_abs_le (|a.value| * one - a.size)
  have hBelow := le_abs_self (|b.value| * one - b.size)
  have hUnits : |b.value| * one ≤ 10 ^ 15 * (|b.value| * one - |a.value| * one) := by
    have := mul_le_mul_of_nonneg_right hApart hScale.le
    linarith
  have hLess : |a.value| * one < |b.value| * one := mul_lt_mul_of_pos_right h hScale
  have hCast : (a.size : ℚ) < b.size := by
    linarith
  exact_mod_cast hCast

theorem value_zero : zero.value = 0 := by
  simp [value, zero]

theorem nearest_lt_nearest (ha : FewDigits a.value) (hb : FewDigits b.value)
    (h : a.value < b.value) : a.nearest < b.nearest := by
  rcases le_or_gt 0 a.value with ha0 | ha0
  · have hb0 : 0 ≤ b.value := le_trans ha0 h.le
    rw [nearest_of_nonneg ha0, nearest_of_nonneg hb0]
    rw [← abs_of_nonneg ha0, ← abs_of_nonneg hb0] at h
    exact Int.ofNat_lt.mpr (size_lt_size ha hb h)
  · rw [nearest_of_nonpos ha0.le]
    rcases le_total 0 b.value with hb0 | hb0
    · have hSize : zero.size < a.size := by
        refine size_lt_size ?_ ha ?_
        · rw [value_zero]
          exact FewDigits.zero
        · rw [value_zero, abs_zero]
          exact abs_pos_of_neg ha0
      rw [nearest_of_nonneg hb0]
      omega
    · rw [nearest_of_nonpos hb0]
      rw [← neg_lt_neg_iff, ← abs_of_nonpos ha0.le, ← abs_of_nonpos hb0] at h
      exact neg_lt_neg (Int.ofNat_lt.mpr (size_lt_size hb ha h))

/-- **Binary64 tells numbers of few digits apart.** -/
theorem nearest_le_nearest_iff (ha : FewDigits a.value) (hb : FewDigits b.value) :
    a.nearest ≤ b.nearest ↔ a.value ≤ b.value := by
  refine ⟨fun h => ?_, nearest_le_nearest⟩
  by_contra hlt
  exact absurd h (not_le.mpr (nearest_lt_nearest hb ha (not_le.mp hlt)))

/-- A number of at most fifteen written digits has few digits. -/
theorem fewDigits_value (h : d.coefficient < 10 ^ 15) (hLow : -300 ≤ d.exponent)
    (hHigh : d.exponent ≤ 290) : FewDigits d.value := by
  refine ⟨if d.negative then -d.coefficient else d.coefficient, d.exponent, ?_, hLow, hHigh, ?_⟩
  · cases d.negative <;> simp <;> omega
  · unfold value
    cases d.negative <;> simp

/-! ### Digits that are left out -/

/-- Digits are left out only where many others come before them. -/
theorem exists_kept_eq (d : Decimal) :
    ∃ k : ℕ, d.kept = ⟨d.negative, d.coefficient / 10 ^ k, d.exponent + k⟩ ∧
      (k = 0 ∨ 10 ^ (k + 18) ≤ d.coefficient) := by
  have hWidth {k : ℕ} (hk : 0 < k) (h : k < (Nat.toDigits 10 d.coefficient).length) :
      10 ^ k ≤ d.coefficient := by
    by_contra hLess
    have := (Nat.length_toDigits_le_iff (by decide) hk).mpr (not_le.mp hLess)
    omega
  unfold kept
  dsimp only
  generalize hCut : (Nat.toDigits 10 d.coefficient).length - 20 = cut
  split
  · refine ⟨cut, rfl, ?_⟩
    rcases Nat.eq_zero_or_pos cut with hZero | hPositive
    · exact Or.inl hZero
    · exact Or.inr (hWidth (by omega) (by omega))
  · rename_i hFull
    refine ⟨cut + 1, ?_, Or.inr ?_⟩
    · rw [Nat.div_div_eq_div_mul]
      congr 1
      push_cast
      ring
    · have hMany : 10 ^ 18 ≤ d.coefficient / 10 ^ cut / 10 :=
        le_trans (by decide) (not_lt.mp hFull)
      rw [Nat.div_div_eq_div_mul, ← pow_succ, Nat.le_div_iff_mul_le (by positivity)] at hMany
      rwa [← pow_add, Nat.add_comm] at hMany

/-- A long coefficient of a number of few digits ends in zeros. -/
theorem pow_dvd_coefficient (h : FewDigits d.value) {k : ℕ}
    (hMany : 10 ^ (k + 18) ≤ d.coefficient) : 10 ^ k ∣ d.coefficient := by
  obtain ⟨m, e, hm, -, -, hValue⟩ := h.abs
  rw [abs_value, ← Int.cast_natCast] at hValue
  have hLess : m < 10 ^ 15 := lt_of_abs_lt hm
  rcases le_total e d.exponent with hPower | hPower
  · -- The coefficient would be one of fifteen digits.
    rw [mul_zpow_eq hPower] at hValue
    have hSame := eq_of_mul_zpow_eq hValue
    have hLe : (d.coefficient : ℤ) ≤ d.coefficient * 10 ^ (d.exponent - e).toNat :=
      le_mul_of_one_le_right (by positivity) (one_le_pow₀ (by norm_num))
    have hLong : 10 ^ 18 ≤ d.coefficient :=
      le_trans (Nat.pow_le_pow_right (by decide) (Nat.le_add_left _ _)) hMany
    omega
  · rw [mul_zpow_eq hPower] at hValue
    have hSame := eq_of_mul_zpow_eq hValue
    generalize (e - d.exponent).toNat = j at hSame
    have hZeros : (10 : ℤ) ^ j ∣ d.coefficient := Dvd.intro_left m hSame.symm
    have hShort : k ≤ j := by
      have hPowers : (10 : ℤ) ^ (k + 18) < 10 ^ (15 + j) :=
        calc (10 : ℤ) ^ (k + 18) ≤ d.coefficient := by exact_mod_cast hMany
          _ = m * 10 ^ j := hSame
          _ < 10 ^ 15 * 10 ^ j := mul_lt_mul_of_pos_right hLess (by positivity)
          _ = 10 ^ (15 + j) := (pow_add _ _ _).symm
      have := (pow_lt_pow_iff_right₀ (by norm_num)).mp hPowers
      omega
    exact dvd_trans (pow_dvd_pow 10 hShort) (by exact_mod_cast hZeros)

/-- Of a number of few digits only zeros are left out. -/
theorem value_kept (h : FewDigits d.value) : d.kept.value = d.value := by
  obtain ⟨k, hKept, hMany⟩ := exists_kept_eq d
  have hDvd : 10 ^ k ∣ d.coefficient := by
    rcases hMany with rfl | hMany
    · exact one_dvd _
    · exact pow_dvd_coefficient h hMany
  obtain ⟨c, hc⟩ := hDvd
  rw [hKept, value, value, hc, Nat.mul_div_cancel_left _ (by positivity)]
  dsimp only
  rw [zpow_add₀ (by norm_num), zpow_natCast]
  push_cast
  ring

end Decimal

end TableTalk
