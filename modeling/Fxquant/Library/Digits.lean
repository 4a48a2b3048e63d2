import Mathlib.Data.Int.Log
import Fxquant.Library.Doubles

/-!
# Significant digits

Numbers that are written with `n` digits to the base `b`, and the numbers of `n` digits that are
nearest to another number. Which of two that are equally near is taken stays open.
-/

namespace Digits

open Doubles

def HasDigits (b n : ℕ) (q : ℚ) : Prop := ∃ m e : ℤ, |m| < b ^ n ∧ q = m * (b : ℚ) ^ e

structure Nearest (b n : ℕ) (q r : ℚ) : Prop where
  digits : HasDigits b n r
  le : ∀ s, HasDigits b n s → |r - q| ≤ |s - q|

section

variable {b n : ℕ} {q r : ℚ}

/-- Rounding leaves the numbers of `n` digits alone, and no others. -/
theorem Nearest.eq_iff (h : Nearest b n q r) : r = q ↔ HasDigits b n q := by
  constructor
  · rintro rfl
    exact h.digits
  · intro hDigits
    have hLe := h.le q hDigits
    rw [sub_self, abs_zero] at hLe
    exact sub_eq_zero.mp (abs_nonpos_iff.mp hLe)

theorem HasDigits.mul_zpow (hb : 0 < b) (h : HasDigits b n q) (e : ℤ) :
    HasDigits b n (q * (b : ℚ) ^ e) := by
  obtain ⟨m, e', hLt, rfl⟩ := h
  refine ⟨m, e' + e, hLt, ?_⟩
  rw [mul_assoc, ← zpow_add₀ (Nat.cast_ne_zero.mpr hb.ne')]

theorem hasDigits_mul_zpow_iff (hb : 0 < b) (e : ℤ) :
    HasDigits b n (q * (b : ℚ) ^ e) ↔ HasDigits b n q := by
  constructor
  · intro h
    have hBack := h.mul_zpow hb (-e)
    rwa [mul_assoc, ← zpow_add₀ (Nat.cast_ne_zero.mpr hb.ne'), add_neg_cancel, zpow_zero,
      mul_one] at hBack
  · intro h
    exact h.mul_zpow hb e

/-- A whole number with at most one digit too many has to end in a zero. -/
theorem hasDigits_intCast_iff (hb : 0 < b) {k : ℤ} (h : |k| < b ^ (n + 1)) :
    HasDigits b n k ↔ |k| < b ^ n ∨ (b : ℤ) ∣ k := by
  have hBase : (0 : ℤ) < b := Int.natCast_pos.mpr hb
  constructor
  · rintro ⟨m, e, hLt, hEq⟩
    cases le_or_gt e 0 with
    | inl hNonpos =>
      left
      have hShrink : (b : ℚ) ^ e ≤ 1 := zpow_le_one_of_nonpos₀ (by exact_mod_cast hb) hNonpos
      have hScale : (0 : ℚ) ≤ (b : ℚ) ^ e := zpow_nonneg (Nat.cast_nonneg b) e
      have hAbs : |(k : ℚ)| ≤ |(m : ℚ)| := by
        rw [hEq, abs_mul, abs_of_nonneg hScale]
        exact mul_le_of_le_one_right (abs_nonneg _) hShrink
      have hLe : |k| ≤ |m| := by exact_mod_cast hAbs
      exact hLe.trans_lt hLt
    | inr hPos =>
      right
      obtain ⟨j, rfl⟩ := Int.le.dest (Int.add_one_le_iff.mpr hPos)
      refine ⟨m * (b : ℤ) ^ j, ?_⟩
      have hPower : (b : ℚ) ^ (0 + 1 + (j : ℤ)) = (b : ℚ) ^ j * b := by
        rw [zero_add, add_comm, zpow_add_one₀ (Nat.cast_ne_zero.mpr hb.ne'), zpow_natCast]
      rw [hPower] at hEq
      have hInt : k = m * ((b : ℤ) ^ j * b) := by exact_mod_cast hEq
      rw [hInt]
      ring
  · rintro (hLt | ⟨j, rfl⟩)
    · exact ⟨k, 0, hLt, by rw [zpow_zero, mul_one]⟩
    · refine ⟨j, 1, ?_, ?_⟩
      · rw [abs_mul, abs_of_pos hBase, pow_succ'] at h
        exact lt_of_mul_lt_mul_left h hBase.le
      · rw [zpow_one, mul_comm]
        push_cast
        ring

end

/-! ### Rounding -/

/-- The value of the last of the `n` digits. -/
def unit (b n : ℕ) (q : ℚ) : ℚ := (b : ℚ) ^ (Int.log b |q| + 1 - n)

/-- Rounding to `n` digits, halves away from zero. -/
def roundTo (b n : ℕ) (q : ℚ) : ℚ := Doubles.round (q / unit b n q) * unit b n q

section

variable {b n : ℕ}

theorem unit_pos (hb : 0 < b) (n : ℕ) (q : ℚ) : 0 < unit b n q :=
  zpow_pos (Nat.cast_pos.mpr hb) _

theorem pow_mul_unit (hb : 0 < b) (n : ℕ) (q : ℚ) :
    (b : ℚ) ^ n * unit b n q = (b : ℚ) ^ (Int.log b |q| + 1) := by
  rw [unit, ← zpow_natCast, ← zpow_add₀ (Nat.cast_ne_zero.mpr hb.ne')]
  congr 1
  ring

theorem abs_div_unit_lt (hb : 1 < b) (n : ℕ) (q : ℚ) : |q / unit b n q| < b ^ n := by
  have hUnit := unit_pos (zero_lt_one.trans hb) n q
  rw [abs_div, abs_of_pos hUnit, div_lt_iff₀ hUnit, pow_mul_unit (zero_lt_one.trans hb)]
  exact Int.lt_zpow_succ_log_self hb _

theorem roundTo_sub (hb : 0 < b) (n : ℕ) (q : ℚ) :
    roundTo b n q - q = (Doubles.round (q / unit b n q) - q / unit b n q) * unit b n q := by
  rw [roundTo, sub_mul, div_mul_cancel₀ _ (unit_pos hb n q).ne']

theorem hasDigits_roundTo (hb : 1 < b) (hn : 0 < n) (q : ℚ) : HasDigits b n (roundTo b n q) := by
  have hPos : 0 < b := zero_lt_one.trans hb
  rw [roundTo, unit, hasDigits_mul_zpow_iff hPos]
  have hRound := abs_le.mp (abs_round_sub_le (q / unit b n q))
  have hAbs := abs_lt.mp (abs_div_unit_lt hb n q)
  have hLt : |Doubles.round (q / unit b n q)| < b ^ n + 1 := by
    have hRat : |(Doubles.round (q / unit b n q) : ℚ)| < b ^ n + 1 := by
      rw [abs_lt]
      constructor <;> linarith [hRound.1, hRound.2, hAbs.1, hAbs.2]
    exact_mod_cast hRat
  have hPower : (b : ℤ) ^ n + 1 ≤ b ^ (n + 1) := by
    have hTwice : b ^ n * 2 ≤ b ^ n * b := Nat.mul_le_mul_left _ hb
    have hOne : 0 < b ^ n := pow_pos hPos n
    have hNat : b ^ n + 1 ≤ b ^ (n + 1) := by
      rw [pow_succ]
      omega
    exact_mod_cast hNat
  rw [← unit, hasDigits_intCast_iff hPos (hLt.trans_le hPower)]
  rcases (Int.lt_add_one_iff.mp hLt).lt_or_eq with hBelow | hEq
  · exact .inl hBelow
  · right
    rw [← dvd_abs, hEq]
    exact dvd_pow_self _ hn.ne'

/-- No multiple of the unit is nearer. -/
theorem abs_roundTo_sub_le (hb : 0 < b) (n : ℕ) (q : ℚ) (k : ℤ) :
    |roundTo b n q - q| ≤ |k * unit b n q - q| := by
  have hUnit := unit_pos hb n q
  have hOther : k * unit b n q - q = (k - q / unit b n q) * unit b n q := by
    rw [sub_mul, div_mul_cancel₀ _ hUnit.ne']
  rw [roundTo_sub hb, hOther, abs_mul, abs_mul]
  exact mul_le_mul_of_nonneg_right (abs_round_sub_le_abs_sub _ k) (abs_nonneg _)

/-- The power of the base below a number is a multiple of the unit. -/
theorem abs_roundTo_sub_le_sub (hb : 1 < b) (hn : 0 < n) {q : ℚ} (h : q ≠ 0) :
    |roundTo b n q - q| ≤ |q| - (b : ℚ) ^ Int.log b |q| := by
  have hPos : 0 < b := zero_lt_one.trans hb
  obtain ⟨j, rfl⟩ := Nat.exists_eq_add_of_lt hn
  have hLow : (b : ℚ) ^ Int.log b |q| ≤ |q| := Int.zpow_log_le_self hb (abs_pos.mpr h)
  have hPower : (b : ℚ) ^ j * unit b (0 + j + 1) q = (b : ℚ) ^ Int.log b |q| := by
    rw [unit, ← zpow_natCast, ← zpow_add₀ (Nat.cast_ne_zero.mpr hPos.ne')]
    congr 1
    push_cast
    ring
  have hBelow := abs_roundTo_sub_le hPos (0 + j + 1) q ((b : ℤ) ^ j)
  have hAbove := abs_roundTo_sub_le hPos (0 + j + 1) q (-(b : ℤ) ^ j)
  push_cast at hBelow hAbove
  rw [hPower] at hBelow
  rw [neg_mul, hPower] at hAbove
  generalize (b : ℚ) ^ Int.log b |q| = p at *
  cases abs_cases q with
  | inl hNonneg =>
    rw [hNonneg.1] at hLow ⊢
    rwa [abs_sub_comm p, abs_of_nonneg (sub_nonneg.mpr hLow)] at hBelow
  | inr hNeg =>
    rw [hNeg.1] at hLow ⊢
    have hSign : 0 ≤ -p - q := by linarith
    rw [abs_of_nonneg hSign] at hAbove
    linarith

theorem nearest_roundTo (hb : 1 < b) (hn : 0 < n) (q : ℚ) : Nearest b n q (roundTo b n q) := by
  have hPos : 0 < b := zero_lt_one.trans hb
  have hBase : (b : ℚ) ≠ 0 := Nat.cast_ne_zero.mpr hPos.ne'
  refine ⟨hasDigits_roundTo hb hn q, ?_⟩
  rintro _ ⟨m, e, hLt, rfl⟩
  cases le_or_gt (Int.log b |q| + 1 - n) e with
  | inl hLarge =>
    -- The candidate is a multiple of the unit.
    obtain ⟨j, hj⟩ := Int.le.dest hLarge
    have hMultiple : (m : ℚ) * (b : ℚ) ^ e = ((m * (b : ℤ) ^ j : ℤ) : ℚ) * unit b n q := by
      rw [unit, ← hj, zpow_add₀ hBase, zpow_natCast]
      push_cast
      ring
    rw [hMultiple]
    exact abs_roundTo_sub_le hPos n q _
  | inr hSmall =>
    cases eq_or_ne q 0 with
    | inl hZero =>
      have hRound : roundTo b n 0 = 0 := by
        rw [roundTo, zero_div, ← Int.cast_zero, round_intCast, Int.cast_zero, zero_mul]
      rw [hZero, hRound, sub_zero, abs_zero]
      exact abs_nonneg _
    | inr hNe =>
      -- The candidate is smaller than the power of the base below the number.
      have hCandidate : |(m : ℚ) * (b : ℚ) ^ e| ≤ (b : ℚ) ^ Int.log b |q| := by
        have hDigits : |(m : ℚ)| ≤ (b : ℚ) ^ n := by exact_mod_cast hLt.le
        have hScale : (0 : ℚ) ≤ (b : ℚ) ^ e := zpow_nonneg (Nat.cast_nonneg b) e
        calc |(m : ℚ) * (b : ℚ) ^ e| = |(m : ℚ)| * (b : ℚ) ^ e := by
              rw [abs_mul, abs_of_nonneg hScale]
          _ ≤ (b : ℚ) ^ n * (b : ℚ) ^ e := mul_le_mul_of_nonneg_right hDigits hScale
          _ = (b : ℚ) ^ (n + e) := by rw [zpow_add₀ hBase, zpow_natCast]
          _ ≤ (b : ℚ) ^ Int.log b |q| :=
              zpow_le_zpow_right₀ (by exact_mod_cast hPos) (by omega)
      have hNear := abs_roundTo_sub_le_sub hb hn hNe
      have hFar : |q| - |(m : ℚ) * (b : ℚ) ^ e| ≤ |(m : ℚ) * (b : ℚ) ^ e - q| := by
        rw [abs_sub_comm]
        exact abs_sub_abs_le_abs_sub _ _
      linarith

end

end Digits
