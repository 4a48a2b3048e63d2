import Mathlib.Data.Int.Log
import Mathlib.Data.Rat.Floor
import Mathlib.Tactic.Linarith
import Mathlib.Tactic.Positivity
import Mathlib.Tactic.Ring

/-!
# Rounding to binary floating point

The numbers of a binary format are the integers of so many digits times powers of two from a least
one on. An operation computes its exact result and rounds it to the nearest number, ties to an
even significand. The range is taken to have no upper end.
-/

namespace Rounding

/-- The nearest integer; of two, the even one. -/
def roundEven (x : ℚ) : ℤ :=
  if x - ⌊x⌋ < 1 / 2 then ⌊x⌋
  else if 1 / 2 < x - ⌊x⌋ then ⌊x⌋ + 1
  else ⌊x⌋ + ⌊x⌋ % 2

theorem abs_roundEven_sub_le (x : ℚ) : |(roundEven x : ℚ) - x| ≤ 1 / 2 := by
  have hLe := Int.floor_le x
  have hLt := Int.lt_floor_add_one x
  have hParity : ((⌊x⌋ % 2 : ℤ) : ℚ) = 0 ∨ ((⌊x⌋ % 2 : ℤ) : ℚ) = 1 := by
    rcases Int.emod_two_eq_zero_or_one ⌊x⌋ with h | h <;> simp [h]
  rw [abs_le, roundEven]
  split
  · constructor <;> linarith
  · split
    · push_cast
      constructor <;> linarith
    · rw [Int.cast_add]
      rcases hParity with h | h <;> rw [h] <;> constructor <;> linarith

theorem abs_roundEven_sub_le_abs_sub (x : ℚ) (k : ℤ) : |(roundEven x : ℚ) - x| ≤ |(k : ℚ) - x| := by
  cases eq_or_ne k (roundEven x) with
  | inl hEq => rw [hEq]
  | inr hNe =>
    have hHalf := abs_roundEven_sub_le x
    have hGap : (1 : ℚ) ≤ |(k : ℚ) - roundEven x| := by
      exact_mod_cast Int.one_le_abs (sub_ne_zero.mpr hNe)
    have hTriangle := abs_sub_le (k : ℚ) x (roundEven x)
    rw [abs_sub_comm x] at hTriangle
    linarith

theorem roundEven_intCast (n : ℤ) : roundEven (n : ℚ) = n := by simp [roundEven]

theorem roundEven_neg (x : ℚ) : roundEven (-x) = -roundEven x := by
  have hLe := Int.floor_le x
  have hLt := Int.lt_floor_add_one x
  rcases hLe.eq_or_lt with hEq | hBelow
  · rw [← hEq, ← Int.cast_neg, roundEven_intCast, roundEven_intCast]
  · have hFloor : ⌊-x⌋ = -⌊x⌋ - 1 := by
      rw [Int.floor_eq_iff]
      push_cast
      constructor <;> linarith
    rw [roundEven, roundEven, hFloor]
    push_cast
    rcases lt_trichotomy (x - ⌊x⌋) (1 / 2) with hLow | hHalf | hHigh
    · rw [if_neg (by linarith), if_pos (by linarith), if_pos hLow]
      omega
    · rw [if_neg (by linarith), if_neg (by linarith), if_neg (by linarith), if_neg (by linarith)]
      omega
    · rw [if_pos (by linarith), if_neg (by linarith), if_pos hHigh]
      omega

/-- The digits of a significand, and the exponent of the least positive number. -/
structure Format where
  digits : ℕ
  minExponent : ℤ

namespace Format

def binary64 : Format := ⟨53, -1074⟩

variable (fmt : Format)

/-- The exponent of the last digit of the numbers next to a value. -/
def exponent (x : ℚ) : ℤ := max (Int.log 2 |x| + 1 - fmt.digits) fmt.minExponent

def lastDigit (x : ℚ) : ℚ := 2 ^ fmt.exponent x

def fl (x : ℚ) : ℚ := roundEven (x / fmt.lastDigit x) * fmt.lastDigit x

/-- The significand `2 ^ digits` is that of the next power of two. -/
def IsNumber (y : ℚ) : Prop :=
  ∃ m k : ℤ, |m| ≤ 2 ^ fmt.digits ∧ fmt.minExponent ≤ k ∧ y = m * 2 ^ k

theorem lastDigit_pos (x : ℚ) : 0 < fmt.lastDigit x := zpow_pos two_pos _

theorem minExponent_le (x : ℚ) : fmt.minExponent ≤ fmt.exponent x := le_max_right _ _

theorem abs_lt_digits (x : ℚ) : |x| < 2 ^ fmt.digits * fmt.lastDigit x := by
  have hLog : |x| < 2 ^ (Int.log 2 |x| + 1) := by
    exact_mod_cast Int.lt_zpow_succ_log_self Nat.one_lt_two |x|
  refine hLog.trans_le ?_
  rw [lastDigit, ← zpow_natCast, ← zpow_add₀ two_ne_zero]
  apply zpow_le_zpow_right₀ one_le_two
  have hExponent : Int.log 2 |x| + 1 - fmt.digits ≤ fmt.exponent x := le_max_left _ _
  omega

/-- A value with an exponent above the least has all its digits. -/
theorem digits_le_abs {x : ℚ} (hx : x ≠ 0) (h : fmt.minExponent < fmt.exponent x) :
    2 ^ fmt.digits * fmt.lastDigit x ≤ 2 * |x| := by
  have hLog : (2 : ℚ) ^ Int.log 2 |x| ≤ |x| := by
    exact_mod_cast Int.zpow_log_le_self Nat.one_lt_two (abs_pos.mpr hx)
  have hExponent : fmt.exponent x = Int.log 2 |x| + 1 - fmt.digits := by
    rw [exponent] at h ⊢
    omega
  calc 2 ^ fmt.digits * fmt.lastDigit x
      = 2 ^ (Int.log 2 |x| + 1) := by
        rw [lastDigit, hExponent, ← zpow_natCast, ← zpow_add₀ two_ne_zero]
        congr 1
        ring
    _ = 2 * 2 ^ Int.log 2 |x| := by rw [zpow_add_one₀ two_ne_zero, mul_comm]
    _ ≤ 2 * |x| := mul_le_mul_of_nonneg_left hLog two_pos.le

theorem lastDigit_neg (x : ℚ) : fmt.lastDigit (-x) = fmt.lastDigit x := by
  rw [lastDigit, lastDigit, exponent, exponent, abs_neg]

theorem fl_neg (x : ℚ) : fmt.fl (-x) = -fmt.fl x := by
  rw [fl, fl, lastDigit_neg, neg_div, roundEven_neg, Int.cast_neg, neg_mul]

/-! ### The error -/

theorem abs_multiple_sub (x : ℚ) (k : ℤ) :
    |(k : ℚ) * fmt.lastDigit x - x| = |(k : ℚ) - x / fmt.lastDigit x| * fmt.lastDigit x := by
  have hPos := fmt.lastDigit_pos x
  rw [← abs_of_pos hPos, ← abs_mul, abs_of_pos hPos, sub_mul, div_mul_cancel₀ _ hPos.ne']

/-- No multiple of the last digit is nearer. -/
theorem abs_fl_sub_le_multiple (x : ℚ) (k : ℤ) :
    |fmt.fl x - x| ≤ |(k : ℚ) * fmt.lastDigit x - x| := by
  rw [fl, abs_multiple_sub, abs_multiple_sub]
  exact mul_le_mul_of_nonneg_right (abs_roundEven_sub_le_abs_sub _ k) (fmt.lastDigit_pos x).le

/-- A rounding is off by half a unit of the last digit, which is small beside the value or the
least number. -/
theorem abs_fl_sub_le (x : ℚ) :
    |fmt.fl x - x| ≤ |x| / 2 ^ fmt.digits + 2 ^ fmt.minExponent / 2 := by
  have hPos := fmt.lastDigit_pos x
  have hHalf : |fmt.fl x - x| ≤ fmt.lastDigit x / 2 := by
    rw [fl, abs_multiple_sub]
    have := mul_le_mul_of_nonneg_right (abs_roundEven_sub_le (x / fmt.lastDigit x)) hPos.le
    linarith
  have hDigits : (0 : ℚ) < 2 ^ fmt.digits := pow_pos two_pos _
  have hLeast : (0 : ℚ) < 2 ^ fmt.minExponent := zpow_pos two_pos _
  have hValue : 0 ≤ |x| / 2 ^ fmt.digits := div_nonneg (abs_nonneg x) hDigits.le
  rcases (fmt.minExponent_le x).eq_or_lt with hEq | hLt
  · rw [lastDigit, ← hEq] at hHalf
    linarith
  · by_cases hx : x = 0
    · have hZero : fmt.fl x = 0 := by simp [fl, hx, roundEven]
      rw [hZero, hx, sub_self, abs_zero, zero_div, zero_add]
      linarith
    · have hScale : fmt.lastDigit x / 2 ≤ |x| / 2 ^ fmt.digits := by
        rw [le_div_iff₀ hDigits]
        linarith [fmt.digits_le_abs hx hLt]
      linarith

/-! ### The nearest number -/

theorem isNumber_fl (x : ℚ) : fmt.IsNumber (fmt.fl x) := by
  refine ⟨roundEven (x / fmt.lastDigit x), fmt.exponent x, ?_, fmt.minExponent_le x, rfl⟩
  have hPos := fmt.lastDigit_pos x
  have hScaled : |x / fmt.lastDigit x| < 2 ^ fmt.digits := by
    rw [abs_div, abs_of_pos hPos, div_lt_iff₀ hPos]
    exact fmt.abs_lt_digits x
  -- The bound is an integer, which a rounding by half does not pass.
  obtain ⟨hLow, hHigh⟩ := abs_lt.mp hScaled
  obtain ⟨hDown, hUp⟩ := abs_le.mp (abs_roundEven_sub_le (x / fmt.lastDigit x))
  rw [abs_le]
  constructor
  · have hCast : ((-2 ^ fmt.digits - 1 : ℤ) : ℚ) < roundEven (x / fmt.lastDigit x) := by
      push_cast
      linarith
    exact Int.le_of_sub_one_lt (Int.cast_lt.mp hCast)
  · have hCast : (roundEven (x / fmt.lastDigit x) : ℚ) < ((2 ^ fmt.digits + 1 : ℤ) : ℚ) := by
      push_cast
      linarith
    exact Int.le_of_lt_add_one (Int.cast_lt.mp hCast)

/-- A power of two that a value has not reached, or has passed, is nearer to it than the numbers on
the other side. -/
theorem abs_sub_le_of_abs_le {x y b : ℚ} (hy : |y| ≤ b) (hx : b ≤ |x|) :
    ∃ z, (z = b ∨ z = -b) ∧ |z - x| ≤ |y - x| := by
  obtain ⟨hLow, hHigh⟩ := abs_le.mp hy
  rcases le_total 0 x with hSign | hSign
  · rw [abs_of_nonneg hSign] at hx
    refine ⟨b, .inl rfl, ?_⟩
    rw [abs_of_nonpos (by linarith), abs_of_nonpos (by linarith)]
    linarith
  · rw [abs_of_nonpos hSign] at hx
    refine ⟨-b, .inr rfl, ?_⟩
    rw [abs_of_nonneg (by linarith), abs_of_nonneg (by linarith)]
    linarith

/-- No number of the format is nearer. -/
theorem abs_fl_sub_le_abs_sub (hDigits : 0 < fmt.digits) {y : ℚ} (h : fmt.IsNumber y) (x : ℚ) :
    |fmt.fl x - x| ≤ |y - x| := by
  by_cases hx : x = 0
  · have hZero : fmt.fl x = 0 := by simp [fl, hx, roundEven]
    rw [hZero, hx, sub_self, abs_zero]
    exact abs_nonneg _
  obtain ⟨m, k, hm, hk, rfl⟩ := h
  have hMul : ∀ j : ℕ, (2 : ℚ) ^ j * fmt.lastDigit x = 2 ^ (j + fmt.exponent x) := fun j => by
    rw [lastDigit, ← zpow_natCast, ← zpow_add₀ two_ne_zero]
  rcases le_or_gt (fmt.exponent x) k with hLe | hLt
  · -- A number with a larger exponent is a multiple of the last digit.
    have hMultiple : (m : ℚ) * 2 ^ k =
        ((m * 2 ^ (k - fmt.exponent x).toNat : ℤ) : ℚ) * fmt.lastDigit x := by
      push_cast
      rw [mul_assoc, hMul, Int.toNat_of_nonneg (by omega), sub_add_cancel]
    rw [hMultiple]
    exact fmt.abs_fl_sub_le_multiple x _
  · -- One with a smaller exponent is not above the power of two that the value begins with.
    have hUnit := fmt.digits_le_abs hx (hk.trans_lt hLt)
    obtain ⟨n, hn⟩ : ∃ n, fmt.digits = n + 1 := ⟨fmt.digits - 1, by omega⟩
    have hPower : 2 ^ n * fmt.lastDigit x ≤ |x| := by
      rw [hn, pow_succ] at hUnit
      linarith
    have hNumber : |(m : ℚ) * 2 ^ k| ≤ 2 ^ n * fmt.lastDigit x := by
      have hm' : |(m : ℚ)| ≤ 2 ^ fmt.digits := by exact_mod_cast hm
      have hk' : (2 : ℚ) ^ k ≤ 2 ^ (fmt.exponent x - 1) := zpow_le_zpow_right₀ one_le_two (by omega)
      calc |(m : ℚ) * 2 ^ k| = |(m : ℚ)| * 2 ^ k := by
            rw [abs_mul, abs_of_pos (zpow_pos two_pos k : (0 : ℚ) < 2 ^ k)]
        _ ≤ 2 ^ fmt.digits * 2 ^ (fmt.exponent x - 1) :=
            mul_le_mul hm' hk' (zpow_pos two_pos k).le (pow_pos two_pos _).le
        _ = 2 ^ n * fmt.lastDigit x := by
            rw [hMul, hn, ← zpow_natCast, ← zpow_add₀ two_ne_zero]
            congr 1
            push_cast
            ring
    obtain ⟨z, hz, hNear⟩ := abs_sub_le_of_abs_le hNumber hPower
    refine le_trans ?_ hNear
    rcases hz with rfl | rfl
    · exact_mod_cast fmt.abs_fl_sub_le_multiple x (2 ^ n)
    · have := fmt.abs_fl_sub_le_multiple x (-2 ^ n)
      push_cast at this
      rwa [neg_mul] at this

/-- A value is on the side of the number that is nearer. -/
theorem mul_nonpos_of_nearer {x a b : ℚ} (h : |a - x| ≤ |b - x|) :
    (a - b) * (a + b - 2 * x) ≤ 0 := by
  have hSquares := sq_le_sq.mpr h
  linarith

theorem fl_mono (hDigits : 0 < fmt.digits) : Monotone fmt.fl := by
  intro x y hxy
  by_contra hNot
  have hLt := sub_pos.mpr (not_le.mp hNot)
  have hx := mul_nonpos_of_nearer (fmt.abs_fl_sub_le_abs_sub hDigits (fmt.isNumber_fl y) x)
  have hy := mul_nonpos_of_nearer (fmt.abs_fl_sub_le_abs_sub hDigits (fmt.isNumber_fl x) y)
  -- The values are on the wrong sides of the middle, unless both of them are the middle.
  have hAbove := nonpos_of_mul_nonpos_right hx hLt
  have hBelow : 0 ≤ fmt.fl y + fmt.fl x - 2 * y := by
    by_contra hNeg
    exact absurd hy (not_le.mpr (mul_pos_of_neg_of_neg (by linarith) (not_le.mp hNeg)))
  have hEq : x = y := by linarith
  exact hNot (hEq ▸ le_rfl)

end Format

end Rounding
