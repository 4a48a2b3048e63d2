import Mathlib.Data.Nat.Log
import Fxquant.Library.Doubles

/-!
# Symbols, points and ticks

`symbol.h`, `tick_data.h` and the fixed point numbers of `fixed_point.h`. A price is a rational
number; the length of one point depends on the symbol alone. Where a price is cut to an integer
that the code decides by, its figures are rounded to doubles on the way.
-/

namespace Fxquant

open Doubles

inductive Symbol where
  | undefined | audcad | audchf | audhuf | audjpy | audnok | audnzd | audsek | audsgd | audusd
  | cadchf | cadjpy | chfjpy | chfdkk | chfhuk | chfnok | chfpln | chfsek | euraud | eurcad
  | eurchf | eurczk | eurdkk | eurhkd | eurhuf | eurgbp | eurjpy | eurils | eurmxn | eurnok
  | eurnzd | eurpln | eursek | eursgd | eurtry | eurusd | eurzar | gbpaud | gbpcad | gbpchf
  | gbpdkk | gbpjpy | gbphuf | gbpmxn | gbpnok | gbpnzd | gbppln | gbpsek | gbpsgd | gbptry
  | gbpusd | gbpzar | nokjpy | nzdcad | nzdchf | nzdhuf | nzdjpy | nzdsgd | nzdusd | usdcad
  | usdchf | usdcnh | usdczk | usddkk | usdhkd | usdhuf | usdils | usdjpy | usdmxn | usdnok
  | usdpln | usdrub | usdsek | usdsgd | usdtry | usdzar
  deriving DecidableEq, Repr, Inhabited

/-- The order of the enumeration, which `std::map` keeps its keys in. -/
instance : LinearOrder Symbol :=
  LinearOrder.lift' Symbol.ctorIdx fun a b h => by
    rw [← Symbol.ofNat_ctorIdx a, h, Symbol.ofNat_ctorIdx b]

def symbolPip : Symbol → ℚ
  | .usdjpy | .eurjpy | .gbpjpy | .chfjpy | .audjpy | .cadjpy | .nokjpy | .nzdjpy => 1 / 1000
  | _ => 1 / 100000

theorem symbolPip_cases (sym : Symbol) : symbolPip sym = 1 / 1000 ∨ symbolPip sym = 1 / 100000 := by
  cases sym <;> simp [symbolPip]

theorem symbolPip_pos (sym : Symbol) : 0 < symbolPip sym := by
  rcases symbolPip_cases sym with h | h <;> rw [h] <;> norm_num

/-- `fixed_point<N>::normalize`. -/
def fixedPoint (N : ℕ) (d : ℚ) : ℚ := (Doubles.round (d * 10 ^ N) : ℚ) / 10 ^ N

/-- The integer part of `log10(1 / symbol_pip(sym))`. -/
def precision (sym : Symbol) : ℕ := Nat.log 10 ⌊1 / symbolPip sym⌋₊

def normalize (sym : Symbol) (d : ℚ) : ℚ :=
  if precision sym = 5 then fixedPoint 5 d else fixedPoint 3 d

theorem precision_of_pip {sym : Symbol} {n : ℕ} (h : 1 / symbolPip sym = 10 ^ n) :
    precision sym = n := by
  rw [precision, h]
  have hFloor : ⌊(10 ^ n : ℚ)⌋₊ = 10 ^ n := by
    have hCast : (10 ^ n : ℚ) = ((10 ^ n : ℕ) : ℚ) := by norm_cast
    rw [hCast, Nat.floor_natCast]
  rw [hFloor, Nat.log_pow (by decide)]

theorem normalize_eq (sym : Symbol) (d : ℚ) :
    normalize sym d = (Doubles.round (d / symbolPip sym) : ℚ) * symbolPip sym := by
  cases symbolPip_cases sym with
  | inl h =>
    have hPrecision : precision sym = 3 := precision_of_pip (by rw [h]; norm_num)
    rw [normalize, if_neg (by rw [hPrecision]; decide), fixedPoint, h]
    have hScale : d * 10 ^ 3 = d / (1 / 1000) := by ring
    rw [hScale]
    ring
  | inr h =>
    have hPrecision : precision sym = 5 := precision_of_pip (by rw [h]; norm_num)
    rw [normalize, if_pos hPrecision, fixedPoint, h]
    have hScale : d * 10 ^ 5 = d / (1 / 100000) := by ring
    rw [hScale]
    ring

/-- The decimals that a feeder normalizes its prices to. -/
def decimals (sym : Symbol) : ℕ := if precision sym = 5 then 5 else 3

/-- What `fixed_point<N>::normalize` rounds to an integer, in doubles. -/
def roundedPoints (sym : Symbol) (d : ℚ) : ℤ := Doubles.round (rounded (d * 10 ^ decimals sym))

/-- `normalize` in doubles. -/
def roundedNormalize (sym : Symbol) (d : ℚ) : ℚ :=
  rounded (roundedPoints sym d / 10 ^ decimals sym)

theorem decimals_cases (sym : Symbol) : decimals sym = 5 ∨ decimals sym = 3 := by
  rw [decimals]
  split
  · exact .inl rfl
  · exact .inr rfl

theorem symbolPip_eq (sym : Symbol) : symbolPip sym = 1 / 10 ^ decimals sym := by
  rcases symbolPip_cases sym with h | h
  · rw [decimals, precision_of_pip (n := 3) (by rw [h]; norm_num), h]
    norm_num
  · rw [decimals, precision_of_pip (n := 5) (by rw [h]; norm_num), h]
    norm_num

theorem roundedNormalize_pos_iff (sym : Symbol) {d : ℚ} (h : 0 ≤ d) :
    0 < roundedNormalize sym d ↔ 1 / 2 ≤ rounded (d * 10 ^ decimals sym) := by
  have hScaled := rounded_nonneg (mul_nonneg h (pow_nonneg (by norm_num : (0 : ℚ) ≤ 10) (decimals sym)))
  rw [← round_pos_iff hScaled, ← roundedPoints]
  constructor
  · intro hPos
    by_contra hNot
    have hPoints : (roundedPoints sym d : ℚ) ≤ 0 := Int.cast_nonpos.mpr (not_lt.mp hNot)
    have hZero : roundedNormalize sym d ≤ rounded 0 :=
      rounded_mono (div_nonpos_of_nonpos_of_nonneg hPoints (by positivity))
    rw [rounded_zero] at hZero
    exact absurd hPos (not_lt.mpr hZero)
  · intro hPos
    have hPoint : 0 < rounded (1 / 10 ^ decimals sym) := by
      rcases decimals_cases sym with hEq | hEq <;> rw [hEq] <;> decide +kernel
    have hOne : (1 : ℚ) ≤ roundedPoints sym d := by exact_mod_cast hPos
    exact hPoint.trans_le (rounded_mono (div_le_div_of_nonneg_right hOne (by positivity)))

/-- `tick_data`; the time is in milliseconds since the epoch, as the ticks are stored. -/
structure TickData where
  bid : ℚ
  ask : ℚ
  time : ℤ
  deriving DecidableEq, Repr

/-- A tick with the doubles of decimal prices. -/
def quote (bid ask : ℚ) (time : ℤ) : TickData := ⟨rounded bid, rounded ask, time⟩

namespace TickData

def midPrice (tick : TickData) : ℚ :=
  rounded (tick.bid + rounded (rounded (tick.ask - tick.bid) / 2))

def spread (tick : TickData) : ℚ := tick.ask - tick.bid

end TickData

end Fxquant
