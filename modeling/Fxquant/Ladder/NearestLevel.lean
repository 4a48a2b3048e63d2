import Fxquant.Ladder.LevelRounding

/-!
# The distance of the nearest level

`set_nearest_level` has a branch for mid prices in the upper half of a step, and the assignment
after it overwrites what the branch assigns. The level is the grid line below, and it is the
nearest one, to within a point, for mid prices that are not nearer to the line above by more than
a point. Where they are by a point, the last digits of the doubles decide.
-/

namespace Fxquant.Ladder

open Doubles

/-- The mid price is as near to the nearest level as to any grid line, but for a point; a tick
passes the test of the tolerance if it is within the tolerance, less a point, of a grid line. -/
def FindsNearest (env : Env) (s : State) (tick : TickData) : Prop :=
  (∀ k : ℤ, |tick.midPrice - (s.initializeCompute env tick).compute.nearestLevel| ≤
      |tick.midPrice - k * (env.params.step * env.point)| + env.point) ∧
    ∀ k : ℤ, |tick.midPrice - k * (env.params.step * env.point)| + env.point ≤
        env.params.lvlTolerance * env.point →
      |rounded (tick.midPrice - (s.initializeCompute env tick).compute.nearestLevel)| ≤
        rounded (env.params.lvlTolerance * env.roundedPoint)

/-- The points of the mid price above the grid line below it, without rounding. -/
def pointsAbove (env : Env) (tick : TickData) : ℚ :=
  tick.midPrice / env.point - (wholePoints env tick - aboveLine env tick)

/-- The level, so many whole points below the mid price, is no further from it than the line above
the grid line is, but for a point and this slack. -/
def LineBelowIsNear (env : Env) (tick : TickData) (slack : ℚ) : Prop :=
  wholePoints env tick ≤ intMax ∧
    aboveLine env tick + pointsAbove env tick ≤ env.params.step + 1 + slack

/-- A mid price whose whole points fit into an `int` is small enough for the error bounds. -/
theorem midPrice_le {env : Env} {tick : TickData} (h : 0 ≤ tick.midPrice)
    (hFits : wholePoints env tick ≤ intMax) : tick.midPrice ≤ 2 ^ 33 * env.point := by
  by_contra hLarge
  obtain ⟨hLow, hHigh⟩ := env.roundedPoint_bounds
  have hPoint := env.point_pos
  have hQuotient : (2 ^ 32 : ℚ) ≤ tick.midPrice / env.roundedPoint := by
    rw [le_div_iff₀ (hPoint.trans_le hLow)]
    norm_num at *
    linarith
  have hPower : (2 ^ 31 : ℚ) ≤ rounded (2 ^ 32) := by decide +kernel
  have hWhole := Int.lt_floor_add_one (rounded (tick.midPrice / env.roundedPoint))
  rw [← wholePoints_eq_floor h] at hWhole
  have hMax : ((wholePoints env tick : ℤ) : ℚ) ≤ 2 ^ 31 - 1 := by
    have hCast : ((wholePoints env tick : ℤ) : ℚ) ≤ intMax := Int.cast_le.mpr hFits
    norm_num [intMax] at hCast ⊢
    exact hCast
  have hLess : (2 ^ 31 : ℚ) < wholePoints env tick + 1 :=
    (hPower.trans (rounded_mono hQuotient)).trans_lt hWhole
  linarith

/-! ### The level and the lines -/

section Fits

variable {env : Env} {tick : TickData}

/-- The distance of the level in points is that of the line below, but for the rounding. -/
theorem abs_sub_levelOf (h : 0 ≤ tick.midPrice) (hFits : wholePoints env tick ≤ intMax) :
    (aboveLine env tick - 1 / 2 ^ 16) * env.point ≤ |tick.midPrice - State.levelOf env tick| ∧
      |tick.midPrice - State.levelOf env tick| ≤ (aboveLine env tick + 1 / 2 ^ 16) * env.point := by
  have hNonneg := (aboveLine_range env tick).1
  obtain ⟨hLow, hHigh⟩ := abs_le.mp (abs_levelOf_sub_le h (midPrice_le h hFits) hFits)
  have hCast : (0 : ℚ) ≤ aboveLine env tick := Int.cast_nonneg hNonneg
  have hProduct : 0 ≤ aboveLine env tick * env.point := mul_nonneg hCast env.point_pos.le
  constructor
  · refine le_trans ?_ (le_abs_self _)
    linarith
  · rw [abs_le]
    constructor <;> linarith

theorem abs_sub_line (env : Env) (tick : TickData) (k : ℤ) :
    |tick.midPrice - k * (env.params.step * env.point)| =
      |tick.midPrice / env.point - (k * env.params.step : ℤ)| * env.point := by
  rw [← abs_of_pos env.point_pos, ← abs_mul, abs_of_pos env.point_pos, sub_mul,
    div_mul_cancel₀ _ env.point_pos.ne']
  push_cast
  rw [mul_assoc]

/-- The cut quotient loses less than a point, or next to one. -/
theorem pointsAbove_bounds (h : 0 ≤ tick.midPrice) (hFits : wholePoints env tick ≤ intMax) :
    aboveLine env tick - 1 / 2 ^ 17 ≤ pointsAbove env tick ∧
      pointsAbove env tick ≤ env.params.step + 1 / 2 ^ 17 := by
  obtain ⟨hBelow, hAbove⟩ := wholePoints_bounds h (midPrice_le h hFits)
  have hLt : ((aboveLine env tick + 1 : ℤ) : ℚ) ≤ env.params.step :=
    Int.cast_le.mpr (Int.add_one_le_iff.mpr (aboveLine_range env tick).2)
  push_cast at hLt
  rw [pointsAbove]
  constructor <;> linarith

/-- No line is nearer than the one below and the one above. -/
theorem min_le_abs_sub (env : Env) (tick : TickData) (k : ℤ) :
    min (pointsAbove env tick) (env.params.step - pointsAbove env tick) ≤
      |tick.midPrice / env.point - (k * env.params.step : ℤ)| := by
  have hWhole := Int.mul_ediv_add_emod (wholePoints env tick) env.params.step
  rw [← aboveLine] at hWhole
  have hStep : 0 < env.params.step := env.accepted_iff.2.2.2.2.1
  rcases le_or_gt k (wholePoints env tick / env.params.step) with hk | hk
  · have hLine : k * env.params.step ≤ wholePoints env tick - aboveLine env tick := by
      have := mul_le_mul_of_nonneg_right hk hStep.le
      linarith
    have hCast : ((k * env.params.step : ℤ) : ℚ) ≤ wholePoints env tick - aboveLine env tick := by
      exact_mod_cast hLine
    refine (min_le_left _ _).trans (le_trans ?_ (le_abs_self _))
    rw [pointsAbove]
    linarith
  · have hLine : wholePoints env tick - aboveLine env tick + env.params.step ≤
        k * env.params.step := by
      have := mul_le_mul_of_nonneg_right (Int.add_one_le_iff.mpr hk) hStep.le
      linarith
    have hCast : (wholePoints env tick - aboveLine env tick + env.params.step : ℚ) ≤
        (k * env.params.step : ℤ) := by
      exact_mod_cast hLine
    refine (min_le_right _ _).trans (le_trans ?_ (neg_le_abs _))
    rw [pointsAbove]
    linarith

theorem abs_sub_lineAbove (env : Env) (tick : TickData) :
    |tick.midPrice / env.point -
        ((wholePoints env tick / env.params.step + 1) * env.params.step : ℤ)| =
      |pointsAbove env tick - env.params.step| := by
  have hWhole := Int.mul_ediv_add_emod (wholePoints env tick) env.params.step
  rw [← aboveLine] at hWhole
  have hLine : (wholePoints env tick / env.params.step + 1) * env.params.step =
      wholePoints env tick - aboveLine env tick + env.params.step := by linarith
  rw [hLine, pointsAbove]
  push_cast
  congr 1
  ring

end Fits

/-! ### The nearest level -/

/-- The test of the tolerance compares doubles, which are in the order of the exact figures. -/
theorem passes_of_le {env : Env} {d : ℚ} (h : |d| ≤ env.params.lvlTolerance * env.point) :
    |rounded d| ≤ rounded (env.params.lvlTolerance * env.roundedPoint) := by
  have hTolerance : (0 : ℚ) ≤ env.params.lvlTolerance :=
    Int.cast_nonneg env.accepted_iff.2.2.2.2.2.1.le
  have hLe := h.trans (mul_le_mul_of_nonneg_left env.roundedPoint_bounds.1 hTolerance)
  obtain ⟨hLow, hHigh⟩ := abs_le.mp hLe
  rw [abs_le, ← rounded_neg]
  exact ⟨rounded_mono hLow, rounded_mono hHigh⟩

theorem findsNearest_iff_forall (env : Env) (s : State) (tick : TickData) :
    FindsNearest env s tick ↔
      ∀ k : ℤ, |tick.midPrice - State.levelOf env tick| ≤
        |tick.midPrice - k * (env.params.step * env.point)| + env.point := by
  rw [FindsNearest, (State.initializeCompute_compute env s tick).1]
  apply and_iff_left_of_imp
  intro hNear k hTolerance
  exact passes_of_le ((hNear k).trans hTolerance)

def hundredGrid : Env where
  symbol := .eurusd
  params := {
    volume := 1 / 10, sl := 60, tp := 60, softTp := 0, step := 100, lvlTolerance := 5
    tradesPerLvl := 1, closeCycleOnProfit := 0, sectionsInHalfRange := 100, sectionsOffset := 0
    maxLotsAllowed := 0, maxSpread := 0, plr := 0 }
  outOfRange := fun _ => Doubles.intMin
  accepted := by decide +kernel

end Fxquant.Ladder
