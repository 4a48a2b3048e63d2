import Mathlib.Tactic.FieldSimp
import Fxquant.Library.Rounding

/-!
# Doubles

A finite value is a rational number, and the operations that leave the finite values do so as in
IEEE 754 (a quotient by zero is an infinity, or a NaN when the dividend is zero too, and every
comparison with a NaN is false). They are computed exactly; `rounded` is the double that is made
of an exact result. Conversions to a machine integer truncate; outside the range of the integer
type the language leaves the result open, so it is a parameter.
-/

namespace Doubles

/-! ### Rounding -/

def rounded (x : ℚ) : ℚ := Rounding.Format.binary64.fl x

@[simp] theorem rounded_zero : rounded 0 = 0 := by
  simp [rounded, Rounding.Format.fl, Rounding.roundEven]

theorem rounded_neg (x : ℚ) : rounded (-x) = -rounded x := by
  simp only [rounded, Rounding.Format.fl_neg]

theorem rounded_mono : Monotone rounded := Rounding.Format.binary64.fl_mono (by decide)

theorem rounded_nonneg {x : ℚ} (h : 0 ≤ x) : 0 ≤ rounded x := by
  simpa using rounded_mono h

/-- The error in terms of a bound on the value, which is not too small itself. -/
theorem abs_rounded_sub_le {x b : ℚ} (hx : |x| ≤ b) (hb : 1 / 2 ^ 60 ≤ b) :
    |rounded x - x| ≤ b / 2 ^ 52 := by
  have hError := Rounding.Format.binary64.abs_fl_sub_le x
  have hLeast : (2 : ℚ) ^ (-1074 : ℤ) ≤ 2 ^ (-112 : ℤ) := zpow_le_zpow_right₀ one_le_two (by decide)
  have hEq : (2 : ℚ) ^ (-112 : ℤ) = 1 / 2 ^ 60 / 2 ^ 52 := by norm_num
  simp only [Rounding.Format.binary64] at hError
  rw [rounded, Rounding.Format.binary64]
  rw [hEq] at hLeast
  linarith

/-- The error beside the value. -/
theorem rounded_bounds {x : ℚ} (h : 1 / 2 ^ 60 ≤ x) :
    x * (1 - 1 / 2 ^ 52) ≤ rounded x ∧ rounded x ≤ x * (1 + 1 / 2 ^ 52) := by
  have hPos : 0 ≤ x := le_trans (by norm_num) h
  obtain ⟨hLow, hHigh⟩ := abs_le.mp (abs_rounded_sub_le (abs_of_nonneg hPos).le h)
  constructor <;> linarith

inductive Double where
  | fin (value : ℚ)
  | inf (negative : Bool)
  | nan
  deriving DecidableEq, Repr

namespace Double

def quotient (a b : ℚ) : Double :=
  if b = 0 then
    if a = 0 then .nan else .inf (decide (a < 0))
  else .fin (a / b)

def scale (x : Double) (c : ℚ) : Double :=
  match x with
  | .fin a => .fin (a * c)
  | .inf negative => if c = 0 then .nan else .inf (negative != decide (c < 0))
  | .nan => .nan

def abs : Double → Double
  | .fin a => .fin |a|
  | .inf _ => .inf false
  | .nan => .nan

def neg : Double → Double
  | .fin a => .fin (-a)
  | .inf negative => .inf (!negative)
  | .nan => .nan

def floor : Double → Double
  | .fin a => .fin (⌊a⌋ : ℤ)
  | .inf negative => .inf negative
  | .nan => .nan

def rounded : Double → Double
  | .fin a => .fin (Doubles.rounded a)
  | .inf negative => .inf negative
  | .nan => .nan

def le : Double → Double → Bool
  | .nan, _ => false
  | _, .nan => false
  | .fin a, .fin b => decide (a ≤ b)
  | .fin _, .inf negative => !negative
  | .inf negative, .fin _ => negative
  | .inf negative, .inf negative' => negative || !negative'

def lt (x y : Double) : Bool := x.le y && !y.le x

def add : Double → Double → Double
  | .fin a, .fin b => .fin (a + b)
  | .fin _, .inf negative => .inf negative
  | .inf negative, .fin _ => .inf negative
  | .inf negative, .inf negative' => if negative = negative' then .inf negative else .nan
  | .nan, _ => .nan
  | _, .nan => .nan

def sub (x y : Double) : Double := x.add y.neg

def mul : Double → Double → Double
  | x, .fin b => x.scale b
  | .fin a, .inf negative => scale (.inf negative) a
  | .inf negative, .inf negative' => .inf (negative != negative')
  | .nan, _ => .nan
  | _, .nan => .nan

@[simp] theorem le_fin_fin (a b : ℚ) : le (.fin a) (.fin b) = true ↔ a ≤ b := by
  simp [le]

@[simp] theorem abs_fin (a : ℚ) : abs (.fin a) = .fin |a| := rfl

theorem not_le_of_lt {x y : Double} (h : x.lt y = true) : y.le x = false := by
  rw [lt, Bool.and_eq_true, Bool.not_eq_true'] at h
  exact h.2

theorem le_neg_neg (a b : Double) : b.neg.le a.neg = a.le b := by
  cases a <;> cases b <;> simp [le, neg, Bool.or_comm]

theorem quotient_of_ne {a b : ℚ} (h : b ≠ 0) : quotient a b = .fin (a / b) := by
  rw [quotient, if_neg h]

end Double

def trunc (a : ℚ) : ℤ := if 0 ≤ a then ⌊a⌋ else ⌈a⌉

theorem trunc_of_nonneg {a : ℚ} (h : 0 ≤ a) : trunc a = ⌊a⌋ := if_pos h

theorem trunc_intCast (n : ℤ) : trunc (n : ℚ) = n := by
  rw [trunc, Int.floor_intCast, Int.ceil_intCast, ite_self]

theorem trunc_of_abs_lt_one {a : ℚ} (h : |a| < 1) : trunc a = 0 := by
  obtain ⟨hLow, hHigh⟩ := abs_lt.mp h
  rw [trunc]
  split
  · rename_i hNonneg
    exact Int.floor_eq_zero_iff.mpr ⟨hNonneg, hHigh⟩
  · rename_i hNeg
    exact Int.ceil_eq_zero_iff.mpr ⟨hLow, (not_le.mp hNeg).le⟩

/-- Fractions of one denominator are a part of it away from the integers below and above them. -/
theorem one_div_le_sub {n : ℕ} (hn : 0 < n) (m k : ℤ) :
    ((k : ℚ) < m / n → k + 1 / n ≤ (m / n : ℚ)) ∧ ((m / n : ℚ) < k → (m / n : ℚ) + 1 / n ≤ k) := by
  have hPos : (0 : ℚ) < n := Nat.cast_pos.mpr hn
  constructor
  · intro hBelow
    have hNumerators : k * n + 1 ≤ m := by
      rw [lt_div_iff₀ hPos] at hBelow
      exact Int.add_one_le_iff.mpr (by exact_mod_cast hBelow)
    rw [le_div_iff₀ hPos, add_mul, one_div_mul_cancel hPos.ne']
    exact_mod_cast hNumerators
  · intro hAbove
    have hNumerators : m + 1 ≤ k * n := by
      rw [div_lt_iff₀ hPos] at hAbove
      exact Int.add_one_le_iff.mpr (by exact_mod_cast hAbove)
    rw [← add_div, div_le_iff₀ hPos]
    exact_mod_cast hNumerators

/-- A number next to a fraction has its whole part, unless it falls short of a whole number. -/
theorem floor_of_near {x : ℚ} {n : ℕ} (hn : 0 < n) {m : ℤ} (h : |x - m / n| < 1 / n) :
    ⌊x⌋ = if (m / n : ℚ) = ⌊(m / n : ℚ)⌋ ∧ x < m / n then ⌊(m / n : ℚ)⌋ - 1
      else ⌊(m / n : ℚ)⌋ := by
  obtain ⟨hLow, hHigh⟩ := abs_lt.mp h
  have hPart : (1 / n : ℚ) ≤ 1 := by
    rw [div_le_one (Nat.cast_pos.mpr hn)]
    exact_mod_cast hn
  have hNext := (one_div_le_sub hn m (⌊(m / n : ℚ)⌋ + 1)).2 (by
    push_cast
    exact Int.lt_floor_add_one _)
  push_cast at hNext
  split
  · rename_i hShort
    rw [Int.floor_eq_iff]
    push_cast
    constructor <;> linarith [hShort.1, hShort.2]
  · rename_i hNot
    rw [Int.floor_eq_iff]
    refine ⟨?_, by linarith⟩
    rcases (Int.floor_le (m / n : ℚ)).eq_or_lt with hWhole | hLess
    · rw [hWhole]
      exact not_lt.mp fun hShort => hNot ⟨hWhole.symm, hShort⟩
    · linarith [(one_div_le_sub hn m ⌊(m / n : ℚ)⌋).1 hLess]

def intMin : ℤ := -2 ^ 31

def intMax : ℤ := 2 ^ 31 - 1

/-- Conversion to a 32-bit integer; `outOfRange` is what the platform answers for a value that
no such integer is the truncation of. -/
def toInt (outOfRange : Double → ℤ) : Double → ℤ
  | .fin a => if intMin ≤ trunc a ∧ trunc a ≤ intMax then trunc a else outOfRange (.fin a)
  | .inf negative => outOfRange (.inf negative)
  | .nan => outOfRange .nan

theorem toInt_of_range (outOfRange : Double → ℤ) {a : ℚ}
    (h : intMin ≤ trunc a ∧ trunc a ≤ intMax) : toInt outOfRange (.fin a) = trunc a :=
  if_pos h

/-- Addition of 32-bit integers, which wraps around. -/
def addInt (a b : ℤ) : ℤ := (a + b).bmod (2 ^ 32)

theorem addInt_of_range {a b : ℤ} (h : intMin ≤ a + b ∧ a + b ≤ intMax) : addInt a b = a + b := by
  rw [addInt, Int.bmod_eq_of_le_mul_two]
  · exact le_trans (by decide) (mul_le_mul_of_nonneg_right h.1 (by decide))
  · exact lt_of_le_of_lt (mul_le_mul_of_nonneg_right h.2 (by decide)) (by decide)

/-- Rounding to the nearest integer, halves away from zero. -/
def round (a : ℚ) : ℤ := if 0 ≤ a then ⌊a + 1 / 2⌋ else ⌈a - 1 / 2⌉

theorem round_pos_iff {a : ℚ} (h : 0 ≤ a) : 0 < round a ↔ 1 / 2 ≤ a := by
  rw [round, if_pos h, Int.floor_pos]
  constructor
  · intro h; linarith
  · intro h; linarith

theorem abs_round_sub_le (a : ℚ) : |(round a : ℚ) - a| ≤ 1 / 2 := by
  rw [round, abs_le]
  split
  · have hLe := Int.floor_le (a + 1 / 2)
    have hLt := Int.lt_floor_add_one (a + 1 / 2)
    constructor <;> linarith
  · have hLe := Int.le_ceil (a - 1 / 2)
    have hLt := Int.ceil_lt_add_one (a - 1 / 2)
    constructor <;> linarith

theorem round_intCast (k : ℤ) : round (k : ℚ) = k := by
  have hHalf := abs_round_sub_le k
  have hSub : |round (k : ℚ) - k| < 1 := by
    have hRat : |(round (k : ℚ) : ℚ) - k| < 1 := by linarith
    exact_mod_cast hRat
  exact sub_eq_zero.mp (Int.abs_lt_one_iff.mp hSub)

/-- No integer is nearer. -/
theorem abs_round_sub_le_abs_sub (a : ℚ) (k : ℤ) : |(round a : ℚ) - a| ≤ |(k : ℚ) - a| := by
  cases eq_or_ne k (round a) with
  | inl hEq => rw [hEq]
  | inr hNe =>
    have hHalf := abs_round_sub_le a
    have hGap : (1 : ℚ) ≤ |(k : ℚ) - round a| := by
      exact_mod_cast Int.one_le_abs (sub_ne_zero.mpr hNe)
    have hTriangle : |(k : ℚ) - round a| ≤ |(k : ℚ) - a| + |(round a : ℚ) - a| := by
      rw [abs_sub_comm (round a : ℚ) a]
      exact abs_sub_le _ _ _
    linarith

end Doubles
