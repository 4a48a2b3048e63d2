import Fxquant.Ladder.Steps

/-!
# How far rounding moves a level

`set_nearest_level` divides the mid price by a point, cuts the quotient to whole points and takes
the points above the grid line off the mid price, all in doubles. For the prices whose points fit
into an `int`, every figure is off by a small part of a point, so only a quotient next to a
whole number of points can be cut to the wrong one.
-/

namespace Fxquant.Ladder

open Doubles

/-- The whole points of the mid price, as the division of the doubles has them. -/
def wholePoints (env : Env) (tick : TickData) : ℤ :=
  trunc (rounded (tick.midPrice / env.roundedPoint))

theorem Env.point_bounds (env : Env) : 1 / 100000 ≤ env.point ∧ env.point ≤ 1 / 1000 := by
  rcases env.point_cases with h | h <;> rw [h] <;> norm_num

/-- Both of the doubles are above the decimals that they stand for. -/
theorem Env.roundedPoint_bounds (env : Env) :
    env.point ≤ env.roundedPoint ∧ env.roundedPoint ≤ env.point + env.point / 2 ^ 52 := by
  rw [Env.roundedPoint]
  rcases env.point_cases with h | h <;> rw [h] <;> decide +kernel

/-- The quotient of a price by a point. -/
theorem abs_quotient_sub_le (env : Env) {price : ℚ} (hNonneg : 0 ≤ price)
    (hLe : price ≤ 2 ^ 33 * env.point) :
    |rounded (price / env.roundedPoint) - price / env.point| ≤ 1 / 2 ^ 17 := by
  have hPoint := env.point_pos
  obtain ⟨hLow, hHigh⟩ := env.roundedPoint_bounds
  have hPos : 0 < env.roundedPoint := hPoint.trans_le hLow
  have hPoints : price / env.point ≤ 2 ^ 33 := by rwa [div_le_iff₀ hPoint]
  have hQuotient : price / env.roundedPoint ≤ price / env.point :=
    div_le_div_of_nonneg_left hNonneg hPoint hLow
  have hNear : price / env.point - price / env.roundedPoint ≤ 2 ^ 33 / 2 ^ 52 := by
    have hDiff : price / env.point - price / env.roundedPoint =
        price / env.point * ((env.roundedPoint - env.point) / env.roundedPoint) := by
      field_simp
    have hPart : (env.roundedPoint - env.point) / env.roundedPoint ≤ 1 / 2 ^ 52 := by
      rw [div_le_iff₀ hPos]
      linarith
    rw [hDiff]
    calc price / env.point * ((env.roundedPoint - env.point) / env.roundedPoint)
        ≤ 2 ^ 33 * (1 / 2 ^ 52) :=
          mul_le_mul hPoints hPart (div_nonneg (sub_nonneg.mpr hLow) hPos.le) (by positivity)
      _ = 2 ^ 33 / 2 ^ 52 := by ring
  have hError := abs_le.mp (abs_rounded_sub_le (x := price / env.roundedPoint) (b := 2 ^ 33)
    (by rw [abs_of_nonneg (div_nonneg hNonneg hPos.le)]; linarith) (by norm_num))
  rw [abs_le]
  constructor <;> norm_num at * <;> linarith

/-- A price less so many points. -/
theorem abs_level_sub_le (env : Env) {price : ℚ} {n : ℤ} (hNonneg : 0 ≤ price)
    (hLe : price ≤ 2 ^ 33 * env.point) (hn : 0 ≤ n) (hnLe : n ≤ 2 ^ 33) :
    |rounded (price - rounded (n * env.roundedPoint)) - (price - n * env.point)| ≤
      env.point / 2 ^ 16 := by
  have hPoint := env.point_bounds
  obtain ⟨hLow, hHigh⟩ := env.roundedPoint_bounds
  have hnCast : (0 : ℚ) ≤ n := Int.cast_nonneg hn
  have hnCastLe : (n : ℚ) ≤ 2 ^ 33 := by exact_mod_cast hnLe
  have hProduct : (n : ℚ) * env.roundedPoint ≤ 2 ^ 33 * (2 * env.point) :=
    mul_le_mul hnCastLe (by norm_num at hHigh ⊢; linarith) (by linarith) (by positivity)
  have hProductNonneg : 0 ≤ (n : ℚ) * env.roundedPoint := mul_nonneg hnCast (by linarith)
  have hError := abs_le.mp (abs_rounded_sub_le (x := n * env.roundedPoint) (b := 2 ^ 34 * env.point)
    (by rw [abs_of_nonneg hProductNonneg]; linarith) (by norm_num; linarith))
  have hDecimal : (n : ℚ) * env.roundedPoint - n * env.point ≤ 2 ^ 33 * (env.point / 2 ^ 52) := by
    rw [← mul_sub]
    exact mul_le_mul hnCastLe (by linarith) (by linarith) (by positivity)
  have hDecimalNonneg : (n : ℚ) * env.point ≤ n * env.roundedPoint :=
    mul_le_mul_of_nonneg_left hLow hnCast
  have hDifference := abs_le.mp (abs_rounded_sub_le
    (x := price - rounded (n * env.roundedPoint)) (b := 2 ^ 35 * env.point)
    (by rw [abs_le]; constructor <;> norm_num at * <;> linarith) (by norm_num; linarith))
  rw [abs_le]
  constructor <;> norm_num at * <;> linarith

/-! ### The level of a tick -/

/-- The whole points of the mid price above the grid line below it. -/
def aboveLine (env : Env) (tick : TickData) : ℤ := wholePoints env tick % env.params.step

theorem midPrice_nonneg {tick : TickData} (hBid : 0 < tick.bid) (hSpread : tick.bid < tick.ask) :
    0 ≤ tick.midPrice := by
  have hHalf := rounded_nonneg
    (div_nonneg (rounded_nonneg (sub_nonneg.mpr hSpread.le)) (zero_le_two (α := ℚ)))
  exact rounded_nonneg (add_nonneg hBid.le hHalf)

theorem wholePoints_eq_floor {env : Env} {tick : TickData} (h : 0 ≤ tick.midPrice) :
    wholePoints env tick = ⌊rounded (tick.midPrice / env.roundedPoint)⌋ := by
  have hPos := env.point_pos.trans_le env.roundedPoint_bounds.1
  exact trunc_of_nonneg (rounded_nonneg (div_nonneg h hPos.le))

section Fits

variable {env : Env} {tick : TickData}

/-- The mid price in points is next to the whole points that the code cuts it to. -/
theorem wholePoints_bounds (h : 0 ≤ tick.midPrice) (hLe : tick.midPrice ≤ 2 ^ 33 * env.point) :
    wholePoints env tick - 1 / 2 ^ 17 ≤ tick.midPrice / env.point ∧
      tick.midPrice / env.point ≤ wholePoints env tick + 1 + 1 / 2 ^ 17 := by
  obtain ⟨hBelow, hAbove⟩ := abs_le.mp (abs_quotient_sub_le env h hLe)
  have hFloor := Int.floor_le (rounded (tick.midPrice / env.roundedPoint))
  have hNext := Int.lt_floor_add_one (rounded (tick.midPrice / env.roundedPoint))
  rw [← wholePoints_eq_floor h] at hFloor hNext
  constructor <;> linarith

theorem wholePoints_nonneg (h : 0 ≤ tick.midPrice) : 0 ≤ wholePoints env tick := by
  rw [wholePoints_eq_floor h]
  have hPos := env.point_pos.trans_le env.roundedPoint_bounds.1
  exact Int.floor_nonneg.mpr (rounded_nonneg (div_nonneg h hPos.le))

theorem levelDistance_eq (h : 0 ≤ tick.midPrice) (hFits : wholePoints env tick ≤ intMax) :
    Compute.levelDistance env tick.midPrice = aboveLine env tick := by
  have hNonneg : 0 ≤ wholePoints env tick := wholePoints_nonneg h
  rw [Compute.levelDistance, Env.toInt, toInt_of_range _ ⟨le_trans (by decide) hNonneg, hFits⟩,
    ← wholePoints, Int.tmod_eq_emod_of_nonneg hNonneg, aboveLine]

theorem aboveLine_range (env : Env) (tick : TickData) :
    0 ≤ aboveLine env tick ∧ aboveLine env tick < env.params.step :=
  ⟨Int.emod_nonneg _ env.accepted_iff.2.2.2.2.1.ne', Int.emod_lt_of_pos _ env.accepted_iff.2.2.2.2.1⟩

/-- The level of a tick is its grid line and what the mid price is above a whole point. -/
theorem abs_levelOf_sub_le (h : 0 ≤ tick.midPrice) (hLe : tick.midPrice ≤ 2 ^ 33 * env.point)
    (hFits : wholePoints env tick ≤ intMax) :
    |State.levelOf env tick - (tick.midPrice - aboveLine env tick * env.point)| ≤
      env.point / 2 ^ 16 := by
  obtain ⟨hNonneg, hLt⟩ := aboveLine_range env tick
  have hStep : env.params.step ≤ 2 ^ 33 := env.step_range.2.trans (by decide)
  rw [State.levelOf, levelDistance_eq h hFits]
  exact abs_level_sub_le env h hLe hNonneg (hLt.le.trans hStep)

end Fits

end Fxquant.Ladder
