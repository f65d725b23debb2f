import Mathlib.Algebra.Order.Floor.Semifield
import Mathlib.Algebra.Order.Field.Power
import Mathlib.Data.Nat.Log
import Mathlib.Data.Rat.Floor
import Mathlib.Tactic.Linarith
import Mathlib.Tactic.NormNum
import Mathlib.Tactic.Positivity
import TableTalk.Number.Decimal

/-!
# Numbers and their binary64 values

A decimal number stands for a rational one (`Decimal.value`), and what `Decimal.nearest`
computes is a function of that number alone: the multiple of the spacing of binary64 that is
nearest to it, a half going to the even one (`Decimal.rounds_size`).

* No value of binary64 is nearer (`Decimal.abs_sub_nearest_le`).
* The order of numbers is kept (`Decimal.nearest_le_nearest`), so that two ways to write a
  number have one value.  Two numbers have one value only if they are rounded alike
  (`Decimal.nearest_eq_nearest_iff`).
* A number that is neither too small nor too large changes by a factor of less than
  `1 + 2 ^ -53` (`Decimal.Rounds.dist_le`).
-/

namespace TableTalk

namespace Decimal

/-- The number itself. -/
def value (d : Decimal) : ℚ :=
  (if d.negative then -1 else 1) * (d.coefficient * 10 ^ d.exponent)

/-! ### The nearest whole number -/

/-- The whole number is nearest to a number, and even if there are two. -/
def NearestEven (x : ℚ) (n : ℕ) : Prop :=
  2 * |x - n| < 1 ∨ 2 * |x - n| = 1 ∧ n % 2 = 0

theorem NearestEven.dist_le {x : ℚ} {n : ℕ} (h : NearestEven x n) : 2 * |x - n| ≤ 1 := by
  rcases h with hlt | ⟨heq, -⟩
  · exact le_of_lt hlt
  · exact le_of_eq heq

/-- No whole number is nearer. -/
theorem NearestEven.dist_le_dist {x : ℚ} {n : ℕ} (h : NearestEven x n) (m : ℕ) :
    |x - n| ≤ |x - m| := by
  rcases eq_or_ne m n with rfl | hne
  · exact le_rfl
  · have hApart : (1 : ℚ) ≤ |(m : ℚ) - n| := by
      have hWhole : 1 ≤ |(m : ℤ) - n| := Int.one_le_abs (sub_ne_zero.mpr (by exact_mod_cast hne))
      exact_mod_cast hWhole
    have hTriangle : |(m : ℚ) - n| ≤ |x - m| + |x - n| := by
      rw [abs_sub_comm x m]
      exact abs_sub_le _ _ _
    linarith [h.dist_le]

/-- Whole numbers are nearest to themselves. -/
theorem nearestEven_natCast (n : ℕ) : NearestEven n n := by
  left
  simp

/-- Rounding keeps order.  Where it might not, both numbers lie halfway between two
neighbours, of which only one is even. -/
theorem NearestEven.mono {x y : ℚ} {m n : ℕ} (hx : NearestEven x m) (hy : NearestEven y n)
    (h : x ≤ y) : m ≤ n := by
  by_contra hlt
  have hStep : (n : ℚ) + 1 ≤ m := by
    exact_mod_cast not_le.mp hlt
  obtain ⟨hLow, -⟩ := abs_le.mp (show |x - m| ≤ 1 / 2 by linarith [hx.dist_le])
  obtain ⟨-, hHigh⟩ := abs_le.mp (show |y - n| ≤ 1 / 2 by linarith [hy.dist_le])
  have hSucc : m = n + 1 := by
    have hCast : (m : ℚ) = (n + 1 : ℕ) := by
      push_cast
      linarith
    exact_mod_cast hCast
  have hxHalf : x - m = -(1 / 2) := by linarith
  have hyHalf : y - n = 1 / 2 := by linarith
  have hm : m % 2 = 0 := by
    rcases hx with hNear | ⟨-, hEven⟩
    · norm_num [hxHalf] at hNear
    · exact hEven
  have hn : n % 2 = 0 := by
    rcases hy with hNear | ⟨-, hEven⟩
    · norm_num [hyHalf] at hNear
    · exact hEven
  omega

theorem nearestEven_divNearestEven (n : ℕ) {d : ℕ} (hd : 0 < d) :
    NearestEven ((n : ℚ) / d) (divNearestEven n d) := by
  have hd' : (0 : ℚ) < d := Nat.cast_pos.mpr hd
  have hDiv : (n : ℚ) / d = (n / d : ℕ) + (n % d : ℕ) / d := by
    rw [eq_comm, ← mul_right_inj' hd'.ne', mul_add, mul_div_cancel₀ _ hd'.ne',
      mul_div_cancel₀ _ hd'.ne']
    exact_mod_cast Nat.div_add_mod n d
  have hNonneg : (0 : ℚ) ≤ (n % d : ℕ) / d := by positivity
  have hLess : ((n % d : ℕ) : ℚ) / d < 1 := by
    rw [div_lt_one hd']
    exact_mod_cast Nat.mod_lt n hd
  have hBelow : |(n : ℚ) / d - (n / d : ℕ)| = (n % d : ℕ) / d := by
    rw [hDiv, add_sub_cancel_left, abs_of_nonneg hNonneg]
  have hAbove : |(n : ℚ) / d - (n / d + 1 : ℕ)| = 1 - (n % d : ℕ) / d := by
    rw [hDiv, abs_of_nonpos (by push_cast; linarith)]
    push_cast
    ring
  unfold divNearestEven
  by_cases hLow : 2 * (n % d) < d
  · rw [if_pos hLow]
    left
    rw [hBelow, mul_div_assoc', div_lt_one hd']
    exact_mod_cast hLow
  · by_cases hHigh : d < 2 * (n % d)
    · rw [if_neg hLow, if_pos hHigh]
      left
      have hHalf : 1 < 2 * ((n % d : ℕ) / d : ℚ) := by
        rw [mul_div_assoc', one_lt_div hd']
        exact_mod_cast hHigh
      rw [hAbove]
      linarith
    · have hTie : 2 * ((n % d : ℕ) / d : ℚ) = 1 := by
        rw [mul_div_assoc', div_eq_one_iff_eq hd'.ne']
        exact_mod_cast le_antisymm (not_lt.mp hHigh) (not_lt.mp hLow)
      rw [if_neg hLow, if_neg hHigh]
      right
      by_cases hEven : n / d % 2 = 0
      · rw [if_pos hEven, hBelow]
        exact ⟨hTie, hEven⟩
      · rw [if_neg hEven, hAbove]
        exact ⟨by linarith, by omega⟩

/-! ### The nearest value of binary64 -/

/-- The distance of neighbouring values of binary64 about a number, in units of the smallest
positive value: numbers below two to the 53 are all told apart. -/
def spacing (x : ℚ) : ℕ :=
  2 ^ (⌊x⌋₊.log2 - 52)

theorem spacing_pos (x : ℚ) : (0 : ℚ) < spacing x :=
  Nat.cast_pos.mpr (Nat.two_pow_pos _)

/-- How many units make one. -/
def scale : ℕ := Nat.pow 2 1074

/-- The value of binary64 nearest to a number, both in units. -/
def Rounds (x : ℚ) (v : ℕ) : Prop :=
  ∃ n, NearestEven (x / spacing x) n ∧ v = min (n * spacing x) infinity

theorem rounds_nearestQuotient (n : ℕ) {d : ℕ} (hd : 0 < d) :
    Rounds ((n : ℚ) / d * scale) (nearestQuotient n d) := by
  unfold nearestQuotient scale
  -- The powers are never computed.
  generalize Nat.pow 2 1074 = one
  generalize hUnits : n * one = units
  have hRatio : (n : ℚ) / d * one = units / d := by
    rw [← hUnits, Nat.cast_mul, div_mul_eq_mul_div]
  have hSpacing : spacing ((units : ℚ) / d) = Nat.pow 2 ((units / d).log2 + 1 - 53) := by
    have hBits : (units / d).log2 + 1 - 53 = (units / d).log2 - 52 := by omega
    rw [spacing, Nat.floor_div_eq_div, hBits]
    rfl
  have hNear : NearestEven ((units : ℚ) / d / spacing ((units : ℚ) / d))
      (divNearestEven units (d * spacing ((units : ℚ) / d))) := by
    rw [div_div, ← Nat.cast_mul]
    exact nearestEven_divNearestEven units (Nat.mul_pos hd (Nat.two_pow_pos _))
  rw [hRatio]
  dsimp only
  rw [← hSpacing]
  exact ⟨_, hNear, rfl⟩

variable {x y : ℚ} {v w : ℕ}

theorem rounds_zero : Rounds 0 0 := by
  refine ⟨0, ?_, by simp⟩
  rw [zero_div]
  exact_mod_cast nearestEven_natCast 0

theorem Rounds.unique (hx : Rounds x v) (hx' : Rounds x w) : v = w := by
  obtain ⟨m, hm, rfl⟩ := hx
  obtain ⟨n, hn, rfl⟩ := hx'
  rw [le_antisymm (hm.mono hn le_rfl) (hn.mono hm le_rfl)]

/-! ### Spacing -/

/-- A number is below the power of two after its leading one. -/
theorem lt_two_pow_log2 (x : ℚ) : x < (2 ^ (⌊x⌋₊.log2 + 1) : ℕ) :=
  lt_of_lt_of_le (Nat.lt_floor_add_one x) (by exact_mod_cast Nat.lt_log2_self)

/-- A number of at least one is not below the power of two at its leading one. -/
theorem two_pow_log2_le (h : 1 ≤ x) : ((2 ^ ⌊x⌋₊.log2 : ℕ) : ℚ) ≤ x := by
  have hFloor : ⌊x⌋₊ ≠ 0 := (Nat.floor_pos.mpr h).ne'
  have hPow : 2 ^ ⌊x⌋₊.log2 ≤ ⌊x⌋₊ := Nat.log2_self_le hFloor
  exact le_trans (by exact_mod_cast hPow) (Nat.floor_le (by linarith))

theorem one_le_of_log2_pos (h : 0 < ⌊x⌋₊.log2) : 1 ≤ x := by
  by_contra hSmall
  rw [Nat.floor_eq_zero.mpr (not_le.mp hSmall)] at h
  exact absurd h (by decide)

/-- Powers of two that are not below the spacing are multiples of it. -/
theorem two_pow_eq_mul_spacing {e : ℕ} (h : ⌊x⌋₊.log2 - 52 ≤ e) :
    2 ^ e = 2 ^ (e - (⌊x⌋₊.log2 - 52)) * spacing x := by
  rw [spacing, ← pow_add, Nat.sub_add_cancel h]

/-- A multiple of the spacing that is not below a number is not below its rounding. -/
theorem mul_spacing_le {n k : ℕ} (hn : NearestEven (x / spacing x) n)
    (h : x ≤ (k * spacing x : ℕ)) : n * spacing x ≤ k * spacing x := by
  refine Nat.mul_le_mul_right _ (hn.mono (nearestEven_natCast k) ?_)
  rw [div_le_iff₀ (spacing_pos x)]
  exact_mod_cast h

/-- A multiple of the spacing that is not above a number is not above its rounding. -/
theorem le_mul_spacing {n k : ℕ} (hn : NearestEven (x / spacing x) n)
    (h : ((k * spacing x : ℕ) : ℚ) ≤ x) : k * spacing x ≤ n * spacing x := by
  refine Nat.mul_le_mul_right _ ((nearestEven_natCast k).mono hn ?_)
  rw [le_div_iff₀ (spacing_pos x)]
  exact_mod_cast h

/-- Rounding keeps order.  Numbers of different spacing have a power of two between them,
which both spacings divide. -/
theorem Rounds.mono (hx : Rounds x v) (hy : Rounds y w) (h : x ≤ y) : v ≤ w := by
  obtain ⟨m, hm, rfl⟩ := hx
  obtain ⟨n, hn, rfl⟩ := hy
  refine min_le_min_right _ ?_
  have hLog : ⌊x⌋₊.log2 ≤ ⌊y⌋₊.log2 := by
    rw [Nat.log2_eq_log_two, Nat.log2_eq_log_two]
    exact Nat.log_mono_right (Nat.floor_le_floor h)
  rcases Nat.lt_or_ge (⌊x⌋₊.log2 - 52) (⌊y⌋₊.log2 - 52) with hLess | hSame
  · have hBelow : x ≤ (2 ^ ⌊y⌋₊.log2 : ℕ) := by
      refine le_of_lt (lt_of_lt_of_le (lt_two_pow_log2 x) ?_)
      exact_mod_cast Nat.pow_le_pow_right Nat.two_pos (by omega)
    have hAbove := two_pow_log2_le (one_le_of_log2_pos (x := y) (by omega))
    have hxPower := two_pow_eq_mul_spacing (x := x) (e := ⌊y⌋₊.log2) (by omega)
    have hyPower := two_pow_eq_mul_spacing (x := y) (e := ⌊y⌋₊.log2) (by omega)
    calc m * spacing x ≤ 2 ^ ⌊y⌋₊.log2 := by
          rw [hxPower] at hBelow ⊢
          exact mul_spacing_le hm hBelow
      _ ≤ n * spacing y := by
          rw [hyPower] at hAbove ⊢
          exact le_mul_spacing hn hAbove
  · have hSpacing : spacing x = spacing y := by
      rw [spacing, spacing]
      congr 1
      omega
    rw [hSpacing] at hm ⊢
    refine Nat.mul_le_mul_right _ (hm.mono hn ?_)
    exact div_le_div_of_nonneg_right h (le_of_lt (spacing_pos y))

/-- The rounding error of numbers that are neither too small nor too large for all their
digits. -/
theorem Rounds.dist_le (h : Rounds x v) (hLow : 2 ^ 52 ≤ x) (hHigh : 2 * x ≤ infinity) :
    2 ^ 53 * |x - v| ≤ x := by
  obtain ⟨n, hn, rfl⟩ := h
  generalize infinity = top at *
  have hOne : 1 ≤ x := le_trans (by norm_num) hLow
  have hLog : 52 ≤ ⌊x⌋₊.log2 := by
    have hFloor : 2 ^ 52 ≤ ⌊x⌋₊ := Nat.le_floor (by exact_mod_cast hLow)
    have hLess := lt_of_le_of_lt hFloor (Nat.lt_log2_self (n := ⌊x⌋₊))
    have := (Nat.pow_lt_pow_iff_right Nat.one_lt_two).mp hLess
    omega
  have hSpacing : 2 ^ 52 * (spacing x : ℚ) ≤ x := by
    refine le_trans (le_of_eq ?_) (two_pow_log2_le hOne)
    rw [two_pow_eq_mul_spacing (Nat.sub_le _ _), Nat.sub_sub_self hLog]
    push_cast
    rfl
  have hPositive := spacing_pos x
  have hDist : 2 * |x - n * spacing x| ≤ spacing x := by
    have hScaled : x - n * spacing x = (x / spacing x - n) * spacing x := by
      rw [sub_mul, div_mul_cancel₀ _ hPositive.ne']
    rw [hScaled, abs_mul, abs_of_pos hPositive, ← mul_assoc]
    exact mul_le_of_le_one_left (le_of_lt hPositive) hn.dist_le
  have hFinite : n * spacing x ≤ top := by
    have hBound : (n * spacing x : ℚ) ≤ top := by
      have := (abs_le.mp (show |x - n * spacing x| ≤ x by linarith)).1
      linarith
    exact_mod_cast hBound
  rw [min_eq_left hFinite, Nat.cast_mul]
  linarith

/-! ### No value is nearer -/

/-- A number of units is a value of binary64, room for its exponent apart. -/
def IsBinary64 (v : ℕ) : Prop :=
  ∃ n k, n < 2 ^ 53 ∧ v = n * 2 ^ k

theorem isBinary64_two_pow (k : ℕ) : IsBinary64 (2 ^ k) :=
  ⟨1, k, by norm_num, (Nat.one_mul _).symm⟩

/-- Numbers are rounded to values of binary64. -/
theorem Rounds.isBinary64 (h : Rounds x v) (hv : v < infinity) : IsBinary64 v := by
  obtain ⟨n, hn, rfl⟩ := h
  generalize infinity = top at *
  rw [min_eq_left (by omega)]
  have hBits : x / spacing x ≤ (2 ^ 53 : ℕ) := by
    rw [div_le_iff₀ (spacing_pos x)]
    refine le_trans (le_of_lt (lt_two_pow_log2 x)) ?_
    rw [spacing, ← Nat.cast_mul, ← pow_add]
    exact_mod_cast Nat.pow_le_pow_right Nat.two_pos (by omega)
  rcases (hn.mono (nearestEven_natCast _) hBits).lt_or_eq with hLess | rfl
  · exact ⟨n, _, hLess, rfl⟩
  · rw [spacing, ← pow_add]
    exact isBinary64_two_pow _

/-- No multiple of the spacing is nearer. -/
theorem dist_le_dist_mul_spacing {n : ℕ} (hn : NearestEven (x / spacing x) n) (k : ℕ) :
    |x - (n * spacing x : ℕ)| ≤ |x - (k * spacing x : ℕ)| := by
  have hScaled (i : ℕ) : x - (i * spacing x : ℕ) = (x / spacing x - i) * spacing x := by
    rw [sub_mul, div_mul_cancel₀ _ (spacing_pos x).ne', Nat.cast_mul]
  rw [hScaled, hScaled, abs_mul, abs_mul]
  exact mul_le_mul_of_nonneg_right (hn.dist_le_dist k) (abs_nonneg _)

/-- No value of binary64 is nearer to a number than that to which it is rounded.  Values that
are not multiples of the spacing lie below a power of two that is not above the number. -/
theorem Rounds.dist_le_dist (h : Rounds x v) (hv : v < infinity) (hw : IsBinary64 w) :
    |x - v| ≤ |x - w| := by
  obtain ⟨n, hn, rfl⟩ := h
  obtain ⟨m, k, hm, rfl⟩ := hw
  generalize infinity = top at *
  rw [min_eq_left (by omega)]
  rcases Nat.lt_or_ge k (⌊x⌋₊.log2 - 52) with hLess | hGe
  · have hLow := two_pow_log2_le (one_le_of_log2_pos (x := x) (by omega))
    have hBelow : m * 2 ^ k ≤ 2 ^ ⌊x⌋₊.log2 :=
      calc m * 2 ^ k ≤ 2 ^ 53 * 2 ^ k := Nat.mul_le_mul_right _ hm.le
        _ = 2 ^ (53 + k) := (pow_add _ _ _).symm
        _ ≤ 2 ^ ⌊x⌋₊.log2 := Nat.pow_le_pow_right Nat.two_pos (by omega)
    have hCast : ((m * 2 ^ k : ℕ) : ℚ) ≤ (2 ^ ⌊x⌋₊.log2 : ℕ) := by
      exact_mod_cast hBelow
    have hNear : |x - (n * spacing x : ℕ)| ≤ |x - (2 ^ ⌊x⌋₊.log2 : ℕ)| := by
      rw [two_pow_eq_mul_spacing (Nat.sub_le _ _)]
      exact dist_le_dist_mul_spacing hn _
    rw [abs_of_nonneg (sub_nonneg.mpr hLow)] at hNear
    rw [abs_of_nonneg (sub_nonneg.mpr (hCast.trans hLow))]
    linarith
  · rw [two_pow_eq_mul_spacing hGe, ← mul_assoc]
    exact dist_le_dist_mul_spacing hn _

/-! ### Numbers that are too large or too small -/

theorem exists_nearestEven (h : 0 ≤ x) : ∃ n, NearestEven x n := by
  refine ⟨divNearestEven x.num.natAbs x.den, ?_⟩
  have hNum : (x.num.natAbs : ℚ) = x.num := by
    rw [Nat.cast_natAbs, abs_of_nonneg (Rat.num_nonneg.mpr h)]
  have hNear := nearestEven_divNearestEven x.num.natAbs x.den_pos
  rwa [hNum, Rat.num_div_den] at hNear

theorem infinity_eq : infinity = Nat.pow 2 2098 := by
  unfold infinity
  rfl

/-- Powers of two are values of binary64. -/
theorem rounds_two_pow {n k : ℕ} (hn : n = Nat.pow 2 k) : Rounds n (min n infinity) := by
  have hSpacing : spacing n = 2 ^ (k - 52) := by
    rw [hn, spacing, Nat.floor_natCast, Nat.pow_eq, Nat.log2_two_pow]
  have hWhole : 2 ^ (k - (k - 52)) * 2 ^ (k - 52) = n := by
    rw [hn, ← pow_add, Nat.sub_add_cancel (Nat.sub_le _ _)]
    rfl
  refine ⟨2 ^ (k - (k - 52)), ?_, by rw [hSpacing, hWhole]⟩
  rw [hSpacing, ← hWhole, Nat.cast_mul, mul_div_cancel_right₀ _ (by positivity)]
  exact nearestEven_natCast _

theorem rounds_infinity (h : (infinity : ℚ) ≤ x) : Rounds x infinity := by
  have hTop : Rounds (infinity : ℚ) infinity := by
    have hPower := rounds_two_pow infinity_eq
    rwa [min_self] at hPower
  have hNonneg : 0 ≤ x / spacing x :=
    div_nonneg (le_trans (Nat.cast_nonneg _) h) (le_of_lt (spacing_pos x))
  obtain ⟨n, hn⟩ := exists_nearestEven hNonneg
  have hx : Rounds x (min (n * spacing x) infinity) := ⟨n, hn, rfl⟩
  have hSame := le_antisymm (min_le_right _ _) (hTop.mono hx h)
  rwa [hSame] at hx

/-- Less than half a unit is nothing. -/
theorem rounds_zero_of_lt (h0 : 0 ≤ x) (h : 2 * x < 1) : Rounds x 0 := by
  have hFloor : ⌊x⌋₊ = 0 := Nat.floor_eq_zero.mpr (by linarith)
  have hSpacing : spacing x = 1 := by
    rw [spacing, hFloor]
    rfl
  refine ⟨0, Or.inl ?_, by simp⟩
  rw [hSpacing, Nat.cast_one, div_one, Nat.cast_zero, sub_zero, abs_of_nonneg h0]
  exact h

/-! ### The nearest value of a decimal number -/

theorem abs_value (d : Decimal) : |d.value| = d.coefficient * 10 ^ d.exponent := by
  have hNonneg : (0 : ℚ) ≤ d.coefficient * 10 ^ d.exponent := by positivity
  unfold value
  cases d.negative <;> simp [abs_of_nonneg hNonneg]

/-- The nearest value without its sign. -/
def size (d : Decimal) : ℕ :=
  d.nearest.natAbs

/-- How the powers of two lie among those of ten. -/
theorem scale_bounds :
    2 * scale < 10 ^ 400 ∧ infinity ≤ 10 ^ 401 * scale ∧ 2 ^ 52 * 10 ^ 300 ≤ scale ∧
      2 * (10 ^ 305 * scale) ≤ infinity := by
  decide +kernel

/-- A number that is far below one, for all its digits, is less than half a unit. -/
theorem two_mul_units_lt {d : Decimal}
    (h : d.exponent < -((Nat.toDigits 10 d.coefficient).length : ℤ) - 400) :
    2 * ((d.coefficient : ℚ) * 10 ^ d.exponent * scale) < 1 := by
  have hDigits : d.coefficient < 10 ^ (Nat.toDigits 10 d.coefficient).length :=
    (Nat.length_toDigits_le_iff (by decide) Nat.length_toDigits_pos).mp le_rfl
  generalize (Nat.toDigits 10 d.coefficient).length = width at h hDigits
  have hCoefficient : (d.coefficient : ℚ) ≤ 10 ^ (width : ℤ) := by
    rw [zpow_natCast]
    exact_mod_cast le_of_lt hDigits
  have hValue : (d.coefficient : ℚ) * 10 ^ d.exponent ≤ 10 ^ (-400 : ℤ) :=
    calc (d.coefficient : ℚ) * 10 ^ d.exponent
        ≤ 10 ^ (width : ℤ) * 10 ^ d.exponent := by gcongr
      _ = 10 ^ (width + d.exponent) := (zpow_add₀ (by norm_num) _ _).symm
      _ ≤ 10 ^ (-400 : ℤ) := zpow_le_zpow_right₀ (by norm_num) (by omega)
  have hScale : 2 * (scale : ℚ) < 10 ^ (400 : ℤ) := by
    exact_mod_cast scale_bounds.1
  have hNonneg : (0 : ℚ) ≤ scale := Nat.cast_nonneg _
  calc 2 * ((d.coefficient : ℚ) * 10 ^ d.exponent * scale)
      = (d.coefficient : ℚ) * 10 ^ d.exponent * (2 * scale) := by ring
    _ ≤ 10 ^ (-400 : ℤ) * (2 * scale) := mul_le_mul_of_nonneg_right hValue (by linarith)
    _ < 10 ^ (-400 : ℤ) * 10 ^ (400 : ℤ) := mul_lt_mul_of_pos_left hScale (by positivity)
    _ = 1 := by rw [← zpow_add₀ (by norm_num)]; norm_num

/-- The size of the nearest value is what the number without its sign rounds to. -/
theorem rounds_size (d : Decimal) : Rounds (|d.value| * scale) d.size := by
  have hSign (n : ℕ) : (if d.negative then -(n : ℤ) else n).natAbs = n := by
    cases d.negative <;> simp
  unfold size nearest
  simp only [hSign, abs_value]
  by_cases hZero : d.coefficient = 0
  · rw [if_pos hZero, hZero, Nat.cast_zero, zero_mul, zero_mul]
    exact rounds_zero
  · rw [if_neg hZero]
    have hOne : (1 : ℚ) ≤ d.coefficient := by
      exact_mod_cast Nat.one_le_iff_ne_zero.mpr hZero
    by_cases hLarge : 400 < d.exponent
    · rw [if_pos hLarge]
      refine rounds_infinity ?_
      have hPower : (10 : ℚ) ^ (401 : ℕ) ≤ 10 ^ d.exponent := by
        rw [← zpow_natCast]
        exact zpow_le_zpow_right₀ (by norm_num) (by omega)
      have hLe : (infinity : ℚ) ≤ 10 ^ (401 : ℕ) * scale := by
        exact_mod_cast scale_bounds.2.1
      have hBound : (10 : ℚ) ^ (401 : ℕ) ≤ d.coefficient * 10 ^ d.exponent :=
        le_trans hPower (le_mul_of_one_le_left (by positivity) hOne)
      have hScale : (0 : ℚ) ≤ scale := Nat.cast_nonneg _
      exact le_trans hLe (mul_le_mul_of_nonneg_right hBound hScale)
    · rw [if_neg hLarge]
      by_cases hSmall : d.exponent < -((Nat.toDigits 10 d.coefficient).length : ℤ) - 400
      · rw [if_pos hSmall]
        have hScale : (0 : ℚ) ≤ scale := Nat.cast_nonneg _
        exact rounds_zero_of_lt (mul_nonneg (by positivity) hScale) (two_mul_units_lt hSmall)
      · rw [if_neg hSmall]
        by_cases hPower : 0 ≤ d.exponent
        · rw [if_pos hPower]
          have hValue : (d.coefficient : ℚ) * 10 ^ d.exponent =
              (d.coefficient * Nat.pow 10 d.exponent.toNat : ℕ) / (1 : ℕ) := by
            rw [Nat.cast_one, div_one, Nat.cast_mul, Nat.pow_eq, Nat.cast_pow, ← zpow_natCast,
              Int.toNat_of_nonneg hPower]
            rfl
          rw [hValue]
          exact rounds_nearestQuotient _ Nat.one_pos
        · rw [if_neg hPower]
          have hValue : (d.coefficient : ℚ) * 10 ^ d.exponent =
              d.coefficient / (Nat.pow 10 (-d.exponent).toNat : ℕ) := by
            rw [Nat.pow_eq, Nat.cast_pow, ← zpow_natCast, Int.toNat_of_nonneg (by omega), zpow_neg,
              div_inv_eq_mul]
            rfl
          rw [hValue]
          exact rounds_nearestQuotient _ (Nat.pow_pos (by decide))

variable {a b d : Decimal}

theorem nearest_eq (d : Decimal) :
    d.nearest = if d.negative then -(d.size : ℤ) else d.size := by
  have hSign (n : ℕ) : (if d.negative then -(n : ℤ) else n) =
      if d.negative then -(((if d.negative then -(n : ℤ) else n).natAbs : ℕ) : ℤ)
        else ((if d.negative then -(n : ℤ) else n).natAbs : ℕ) := by
    cases d.negative <;> simp
  exact hSign _

/-- The nearest value of zero is zero, also with a sign. -/
theorem size_eq_zero (h : d.value = 0) : d.size = 0 := by
  have hRounds := rounds_size d
  rw [h, abs_zero, zero_mul] at hRounds
  exact hRounds.unique rounds_zero

theorem nearest_of_nonneg (h : 0 ≤ d.value) : d.nearest = d.size := by
  rw [nearest_eq]
  cases hSign : d.negative with
  | false => simp
  | true =>
      have hZero : d.value = 0 := by
        refine le_antisymm ?_ h
        rw [value, hSign, if_pos rfl, neg_one_mul]
        exact neg_nonpos.mpr (by positivity)
      simp [size_eq_zero hZero]

theorem nearest_of_nonpos (h : d.value ≤ 0) : d.nearest = -(d.size : ℤ) := by
  rw [nearest_eq]
  cases hSign : d.negative with
  | true => simp
  | false =>
      have hZero : d.value = 0 := by
        refine le_antisymm h ?_
        rw [value, hSign, if_neg Bool.false_ne_true, one_mul]
        positivity
      simp [size_eq_zero hZero]

/-- Sizes compare as the numbers without their signs do. -/
theorem size_le_size (h : |a.value| ≤ |b.value|) : a.size ≤ b.size :=
  (rounds_size a).mono (rounds_size b) (mul_le_mul_of_nonneg_right h (Nat.cast_nonneg _))

/-- **The nearest values keep the order of numbers.**  So they depend on the number alone,
not on the way it is written. -/
theorem nearest_le_nearest (h : a.value ≤ b.value) : a.nearest ≤ b.nearest := by
  rcases le_total 0 a.value with ha | ha
  · have hb : 0 ≤ b.value := le_trans ha h
    rw [nearest_of_nonneg ha, nearest_of_nonneg hb]
    rw [← abs_of_nonneg ha, ← abs_of_nonneg hb] at h
    exact Int.ofNat_le.mpr (size_le_size h)
  · rw [nearest_of_nonpos ha]
    rcases le_total 0 b.value with hb | hb
    · rw [nearest_of_nonneg hb]
      omega
    · rw [nearest_of_nonpos hb]
      rw [← neg_le_neg_iff, ← abs_of_nonpos ha, ← abs_of_nonpos hb] at h
      exact neg_le_neg (Int.ofNat_le.mpr (size_le_size h))

/-- Numbers have one nearest value only if their sizes are rounded alike and their signs
agree, but for those that are rounded to zero. -/
theorem nearest_eq_nearest_iff :
    a.nearest = b.nearest ↔ ∃ v, Rounds (|a.value| * scale) v ∧ Rounds (|b.value| * scale) v ∧
      (v ≠ 0 → (a.value < 0 ↔ b.value < 0)) := by
  constructor
  · intro h
    have hSize : a.size = b.size := congrArg Int.natAbs h
    refine ⟨a.size, rounds_size a, hSize ▸ rounds_size b, fun hZero => ?_⟩
    rcases le_or_gt 0 a.value with ha | ha <;> rcases le_or_gt 0 b.value with hb | hb
    · exact iff_of_false ha.not_gt hb.not_gt
    · rw [nearest_of_nonneg ha, nearest_of_nonpos hb.le] at h
      omega
    · rw [nearest_of_nonpos ha.le, nearest_of_nonneg hb] at h
      omega
    · exact iff_of_true ha hb
  · rintro ⟨v, hA, hB, hSigns⟩
    have ha : a.size = v := (rounds_size a).unique hA
    have hb : b.size = v := (rounds_size b).unique hB
    rcases eq_or_ne v 0 with rfl | hZero
    · rw [nearest_eq, nearest_eq, ha, hb]
      simp
    · have hSame := hSigns hZero
      rcases le_or_gt 0 a.value with ha0 | ha0
      · have hb0 : 0 ≤ b.value := not_lt.mp (mt hSame.mpr ha0.not_gt)
        rw [nearest_of_nonneg ha0, nearest_of_nonneg hb0, ha, hb]
      · rw [nearest_of_nonpos ha0.le, nearest_of_nonpos (hSame.mp ha0).le, ha, hb]

/-- **No value of binary64 is nearer**, if the nearest one is not infinite. -/
theorem abs_sub_nearest_le (h : d.isFinite = true) {w : ℤ} (hw : IsBinary64 w.natAbs) :
    |d.value * scale - d.nearest| ≤ |d.value * scale - w| := by
  have hFinite : d.size < infinity := of_decide_eq_true h
  have hScale : (0 : ℚ) ≤ scale := Nat.cast_nonneg _
  have hSize : |d.value * scale - d.nearest| = |(|d.value| * scale - d.size)| := by
    generalize (scale : ℚ) = one
    rcases le_total 0 d.value with h0 | h0
    · rw [nearest_of_nonneg h0, abs_of_nonneg h0, Int.cast_natCast]
    · have hOpposite : d.value * one - (-(d.size : ℤ) : ℤ) = -(-d.value * one - d.size) := by
        push_cast
        ring
      rw [nearest_of_nonpos h0, abs_of_nonpos h0, hOpposite, abs_neg]
  calc |d.value * scale - d.nearest| = |(|d.value| * scale - d.size)| := hSize
    _ ≤ |(|d.value| * scale - w.natAbs)| := (rounds_size d).dist_le_dist hFinite hw
    _ = |(|d.value * scale| - |(w : ℚ)|)| := by
        rw [abs_mul, abs_of_nonneg hScale, Nat.cast_natAbs, Int.cast_abs]
    _ ≤ |d.value * scale - w| := abs_abs_sub_abs_le _ _

end Decimal

end TableTalk
