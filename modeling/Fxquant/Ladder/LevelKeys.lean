import Fxquant.Ladder.Levels

/-!
# Levels that `on_level` tells apart

The factor of `on_level` is the same for every symbol. It counts a level in tenths of a
thousandth, which are more than enough where a point is a thousandth, and in tens of points where
a point is a hundred thousandth: there the levels of a finer grid share their keys. A level that
is a whole number of these units can be a double just below it, which counts for the unit below.
-/

namespace Fxquant.Ladder

open FxEngine Doubles

/-- The doubles of positive prices in whole points. -/
structure InPoints (env : Env) (tick : TickData) (bid ask : ℤ) : Prop where
  bid_eq : tick.bid = rounded (bid * env.point)
  ask_eq : tick.ask = rounded (ask * env.point)
  bid_pos : 0 < bid
  ask_pos : 0 < ask

/-- Twice a mid price in points that the conversions to `int` hold, with a point to spare. -/
def Fits (env : Env) (sum : ℤ) : Prop :=
  (sum : ℚ) / 2 ≤ intMax - 1 ∧ (sum : ℚ) / 2 * env.point * 10000 ≤ intMax - 1

instance (env : Env) (sum : ℤ) : Decidable (Fits env sum) := inferInstanceAs (Decidable (_ ∧ _))

/-- The level of a tick in the units of `on_level`, without rounding; the sum is that of the bid and
the ask in points. -/
def units (env : Env) (tick : TickData) (sum : ℤ) : ℚ :=
  ((sum : ℚ) / 2 - aboveLine env tick) * env.point * 10000

/-- The double of the level is below a level that is a whole number of units. -/
def FallsShort (env : Env) (tick : TickData) (sum : ℤ) : Prop :=
  0 < units env tick sum ∧ units env tick sum = ⌊units env tick sum⌋ ∧
    rounded (State.levelOf env tick * 10000) < units env tick sum

instance (env : Env) (tick : TickData) (sum : ℤ) : Decidable (FallsShort env tick sum) :=
  inferInstanceAs (Decidable (_ ∧ _))

def wholeUnits (env : Env) (tick : TickData) (sum : ℤ) : ℤ :=
  if FallsShort env tick sum then ⌊units env tick sum⌋ - 1 else ⌊units env tick sum⌋

/-- The levels are not in the same unit. Where a conversion overflows, it is the platform that tells
them apart or does not. -/
def LevelsApart (env : Env) (tick : TickData) (sum : ℤ) (tick' : TickData) (sum' : ℤ) : Prop :=
  if Fits env sum ∧ Fits env sum' then wholeUnits env tick sum ≠ wholeUnits env tick' sum'
  else levelKey env tick ≠ levelKey env tick'

instance (env : Env) (tick : TickData) (sum : ℤ) (tick' : TickData) (sum' : ℤ) :
    Decidable (LevelsApart env tick sum tick' sum') := inferInstanceAs (Decidable (ite _ _ _))

/-! ### The error of the level -/

/-- The mid price of two prices that are next to whole points. -/
theorem abs_midPrice_sub_le {env : Env} {tick : TickData} {bid ask : ℤ}
    (h : InPoints env tick bid ask) (hLe : bid + ask ≤ 2 ^ 32) :
    |tick.midPrice - ((bid + ask : ℤ) : ℚ) / 2 * env.point| ≤ env.point / 2 ^ 16 := by
  have hPoint := env.point_bounds
  have hPrice : ∀ n : ℤ, 0 < n → n ≤ 2 ^ 32 →
      |rounded (n * env.point) - n * env.point| ≤ 2 ^ 32 * env.point / 2 ^ 52 ∧
        0 ≤ n * env.point ∧ n * env.point ≤ 2 ^ 32 * env.point := by
    intro n hPos hn
    have hCast : (n : ℚ) ≤ 2 ^ 32 := by exact_mod_cast hn
    have hNonneg : 0 ≤ (n : ℚ) * env.point := mul_nonneg (Int.cast_nonneg hPos.le) env.point_pos.le
    have hProduct := mul_le_mul_of_nonneg_right hCast env.point_pos.le
    refine ⟨abs_rounded_sub_le ?_ ?_, hNonneg, hProduct⟩
    · rwa [abs_of_nonneg hNonneg]
    · norm_num at *
      linarith
  obtain ⟨hBid, hBidNonneg, hBidLe⟩ := hPrice bid h.bid_pos (by linarith [h.ask_pos])
  obtain ⟨hAsk, hAskNonneg, hAskLe⟩ := hPrice ask h.ask_pos (by linarith [h.bid_pos])
  rw [← h.bid_eq] at hBid
  rw [← h.ask_eq] at hAsk
  obtain ⟨hBidLow, hBidHigh⟩ := abs_le.mp hBid
  obtain ⟨hAskLow, hAskHigh⟩ := abs_le.mp hAsk
  obtain ⟨hDiffLow, hDiffHigh⟩ := abs_le.mp (abs_rounded_sub_le (x := tick.ask - tick.bid)
    (b := 2 ^ 33 * env.point) (by rw [abs_le]; constructor <;> norm_num at * <;> linarith)
    (by norm_num; linarith))
  obtain ⟨hHalfLow, hHalfHigh⟩ := abs_le.mp (abs_rounded_sub_le
    (x := rounded (tick.ask - tick.bid) / 2) (b := 2 ^ 33 * env.point)
    (by rw [abs_le]; constructor <;> norm_num at * <;> linarith) (by norm_num; linarith))
  obtain ⟨hMidLow, hMidHigh⟩ := abs_le.mp (abs_rounded_sub_le
    (x := tick.bid + rounded (rounded (tick.ask - tick.bid) / 2)) (b := 2 ^ 34 * env.point)
    (by rw [abs_le]; constructor <;> norm_num at * <;> linarith) (by norm_num; linarith))
  rw [TickData.midPrice, abs_le]
  push_cast
  constructor <;> norm_num at * <;> linarith

section Fits

variable {env : Env} {tick : TickData} {bid ask : ℤ}

theorem sum_le_of_fits {sum : ℤ} (h : Fits env sum) : sum ≤ 2 ^ 32 := by
  have hSum : (sum : ℚ) ≤ (2 ^ 32 : ℤ) := by
    have := h.1
    norm_num [intMax] at this ⊢
    linarith
  exact Int.cast_le.mp hSum

theorem midPrice_bounds (h : InPoints env tick bid ask) (hFits : Fits env (bid + ask)) :
    0 ≤ tick.midPrice ∧ tick.midPrice ≤ 2 ^ 33 * env.point := by
  have hPoint := env.point_pos
  obtain ⟨hLow, hHigh⟩ := abs_le.mp (abs_midPrice_sub_le h (sum_le_of_fits hFits))
  have hPos : (2 : ℚ) ≤ (bid + ask : ℤ) := by
    have hSum : 2 ≤ bid + ask := by linarith [Int.add_one_le_iff.mpr h.bid_pos, h.ask_pos]
    exact_mod_cast hSum
  have hLe : ((bid + ask : ℤ) : ℚ) ≤ 2 ^ 32 := by exact_mod_cast sum_le_of_fits hFits
  have hPosMul := mul_le_mul_of_nonneg_right hPos hPoint.le
  have hLeMul := mul_le_mul_of_nonneg_right hLe hPoint.le
  constructor <;> norm_num at * <;> linarith

theorem wholePoints_le (h : InPoints env tick bid ask) (hFits : Fits env (bid + ask)) :
    wholePoints env tick ≤ intMax := by
  obtain ⟨hMid, hMidLe⟩ := midPrice_bounds h hFits
  have hPoint := env.point_pos
  have hNear := (abs_le.mp (abs_midPrice_sub_le h (sum_le_of_fits hFits))).2
  have hPoints : tick.midPrice / env.point ≤ ((bid + ask : ℤ) : ℚ) / 2 + 1 / 2 ^ 16 := by
    rw [div_le_iff₀ hPoint]
    linarith
  have hWhole := (wholePoints_bounds hMid hMidLe).1
  have hCast : ((wholePoints env tick : ℤ) : ℚ) < (intMax + 1 : ℤ) := by
    have := hFits.1
    push_cast
    norm_num at *
    linarith
  exact Int.le_of_lt_add_one (Int.cast_lt.mp hCast)

/-- The whole points miss those of the mid price by one at most. -/
theorem sum_sub_wholePoints (h : InPoints env tick bid ask) (hFits : Fits env (bid + ask)) :
    0 ≤ bid + ask - 2 * wholePoints env tick ∧ bid + ask - 2 * wholePoints env tick ≤ 2 := by
  obtain ⟨hMid, hMidLe⟩ := midPrice_bounds h hFits
  have hPoint := env.point_pos
  obtain ⟨hLow, hHigh⟩ := abs_le.mp (abs_midPrice_sub_le h (sum_le_of_fits hFits))
  obtain ⟨hBelow, hAbove⟩ := wholePoints_bounds hMid hMidLe
  have hPointsLe : tick.midPrice / env.point ≤ ((bid + ask : ℤ) : ℚ) / 2 + 1 / 2 ^ 16 := by
    rw [div_le_iff₀ hPoint]
    linarith
  have hLePoints : ((bid + ask : ℤ) : ℚ) / 2 - 1 / 2 ^ 16 ≤ tick.midPrice / env.point := by
    rw [le_div_iff₀ hPoint]
    linarith
  have hCastLow : ((-1 : ℤ) : ℚ) < (bid + ask - 2 * wholePoints env tick : ℤ) := by
    push_cast at *
    norm_num at *
    linarith
  have hCastHigh : ((bid + ask - 2 * wholePoints env tick : ℤ) : ℚ) < (3 : ℤ) := by
    push_cast at *
    norm_num at *
    linarith
  exact ⟨Int.cast_lt.mp hCastLow, Int.le_of_lt_add_one (Int.cast_lt.mp hCastHigh)⟩

/-- What `on_level` truncates is next to the level in its units. -/
theorem abs_sub_units_lt (h : InPoints env tick bid ask) (hFits : Fits env (bid + ask)) :
    |rounded (State.levelOf env tick * 10000) - units env tick (bid + ask)| < 1 / 20 := by
  obtain ⟨hMid, hMidLe⟩ := midPrice_bounds h hFits
  have hPoint := env.point_bounds
  obtain ⟨hNearLow, hNearHigh⟩ := abs_le.mp (abs_midPrice_sub_le h (sum_le_of_fits hFits))
  obtain ⟨hLevelLow, hLevelHigh⟩ :=
    abs_le.mp (abs_levelOf_sub_le hMid hMidLe (wholePoints_le h hFits))
  have hAbove : (0 : ℚ) ≤ aboveLine env tick := Int.cast_nonneg (aboveLine_range env tick).1
  have hAboveMul := mul_nonneg hAbove env.point_pos.le
  have hAboveLe : (aboveLine env tick : ℚ) ≤ 2 ^ 31 := by
    have hLe := (aboveLine_range env tick).2.le.trans env.step_range.2
    exact_mod_cast hLe.trans (by decide)
  have hAboveMulLe := mul_le_mul_of_nonneg_right hAboveLe env.point_pos.le
  have hError := abs_le.mp (abs_rounded_sub_le (x := State.levelOf env tick * 10000) (b := 2 ^ 40)
    (by rw [abs_le]; constructor <;> norm_num at * <;> linarith) (by norm_num))
  rw [units, abs_lt]
  constructor <;> norm_num at * <;> linarith

end Fits

/-! ### The key and the units -/

theorem exists_twentieths (env : Env) (tick : TickData) (sum : ℤ) :
    ∃ m : ℤ, units env tick sum = m / (20 : ℕ) := by
  rcases env.point_cases with hPoint | hPoint
  · refine ⟨100 * (sum - 2 * aboveLine env tick), ?_⟩
    rw [units, hPoint]
    push_cast
    ring
  · refine ⟨sum - 2 * aboveLine env tick, ?_⟩
    rw [units, hPoint]
    push_cast
    ring

theorem wholeUnits_bounds (env : Env) (tick : TickData) (sum : ℤ) :
    units env tick sum - 1 ≤ wholeUnits env tick sum ∧
      wholeUnits env tick sum ≤ units env tick sum := by
  have hFloor := Int.floor_le (units env tick sum)
  have hNext := Int.lt_floor_add_one (units env tick sum)
  rw [wholeUnits]
  split
  · rename_i hShort
    push_cast
    constructor <;> linarith [hShort.2.1]
  · constructor <;> linarith

/-- Truncating a double that is next to a level gives the units of the level. -/
theorem trunc_eq_wholeUnits {env : Env} {tick : TickData} {sum : ℤ}
    (hNonneg : 0 ≤ units env tick sum)
    (h : |rounded (State.levelOf env tick * 10000) - units env tick sum| < 1 / 20) :
    trunc (rounded (State.levelOf env tick * 10000)) = wholeUnits env tick sum := by
  obtain ⟨m, hm⟩ := exists_twentieths env tick sum
  have hTwenty : 0 < 20 := by decide
  rcases hNonneg.eq_or_lt with hZero | hPos
  · -- Next to zero both signs are truncated to zero.
    have hShort : ¬ FallsShort env tick sum := fun hFalls => hFalls.1.ne hZero
    rw [← hZero, sub_zero] at h
    rw [wholeUnits, if_neg hShort, ← hZero, Int.floor_zero]
    exact trunc_of_abs_lt_one (h.trans (by norm_num))
  · have hLeast := (one_div_le_sub hTwenty m 0).1 (by rwa [Int.cast_zero, ← hm])
    have hDouble : 0 ≤ rounded (State.levelOf env tick * 10000) := by
      rw [← hm] at hLeast
      norm_num at hLeast
      linarith [(abs_lt.mp h).1]
    have hFloor : ⌊rounded (State.levelOf env tick * 10000)⌋ = _ :=
      floor_of_near hTwenty (m := m) (by rw [← hm]; exact_mod_cast h)
    rw [trunc_of_nonneg hDouble, hFloor, ← hm, wholeUnits]
    simp only [FallsShort, hPos, true_and]

theorem units_nonneg {env : Env} {tick : TickData} {bid ask : ℤ} (h : InPoints env tick bid ask)
    (hFits : Fits env (bid + ask)) : 0 ≤ units env tick (bid + ask) := by
  have hWhole := (sum_sub_wholePoints h hFits).1
  have hAbove : aboveLine env tick ≤ wholePoints env tick := by
    have hStep := env.accepted_iff.2.2.2.2.1.le
    have hPoints : 0 ≤ wholePoints env tick := wholePoints_nonneg (midPrice_bounds h hFits).1
    have hLine := mul_nonneg hStep (Int.ediv_nonneg hPoints hStep)
    rw [aboveLine]
    linarith [Int.mul_ediv_add_emod (wholePoints env tick) env.params.step]
  have hLine : (0 : ℚ) ≤ (bid + ask - 2 * aboveLine env tick : ℤ) := Int.cast_nonneg (by linarith)
  have hHalf : (0 : ℚ) ≤ ((bid + ask : ℤ) : ℚ) / 2 - aboveLine env tick := by
    push_cast at hLine ⊢
    linarith
  exact mul_nonneg (mul_nonneg hHalf env.point_pos.le) (by norm_num)

theorem levelKey_eq {env : Env} {tick : TickData} {bid ask : ℤ} (h : InPoints env tick bid ask)
    (hFits : Fits env (bid + ask)) : levelKey env tick = wholeUnits env tick (bid + ask) := by
  have hTrunc := trunc_eq_wholeUnits (units_nonneg h hFits) (abs_sub_units_lt h hFits)
  obtain ⟨hLow, hHigh⟩ := wholeUnits_bounds env tick (bid + ask)
  have hAbove : (0 : ℚ) ≤ aboveLine env tick * env.point :=
    mul_nonneg (Int.cast_nonneg (aboveLine_range env tick).1) env.point_pos.le
  have hUnits : units env tick (bid + ask) ≤ intMax - 1 := by
    refine le_trans ?_ hFits.2
    rw [units]
    linarith
  have hMax : wholeUnits env tick (bid + ask) ≤ intMax - 1 := by
    exact_mod_cast hHigh.trans hUnits
  have hMin : -1 ≤ wholeUnits env tick (bid + ask) := by
    have hCast : ((-1 : ℤ) : ℚ) ≤ wholeUnits env tick (bid + ask) := by
      push_cast
      linarith [units_nonneg h hFits]
    exact Int.cast_le.mp hCast
  rw [levelKey, Env.toInt, toInt_of_range, hTrunc]
  rw [hTrunc]
  exact ⟨le_trans (by decide) hMin, hMax.trans (by decide)⟩

theorem levelKey_ne_iff {env : Env} {tick tick' : TickData} {bid ask bid' ask' : ℤ}
    (h : InPoints env tick bid ask) (h' : InPoints env tick' bid' ask') :
    levelKey env tick ≠ levelKey env tick' ↔
      LevelsApart env tick (bid + ask) tick' (bid' + ask') := by
  rw [LevelsApart]
  split
  · rename_i hFits
    rw [levelKey_eq h hFits.1, levelKey_eq h' hFits.2]
  · rfl

/-- An order opened on one level is told from those of the level of a later tick exactly when the
levels are apart. -/
theorem onLevel_other_level_iff (env : Env) (autoOrderId : ℕ) (ticks : List TickData)
    (tick tick' : TickData) {p : Ptr} (hp : p ∈ (after env autoOrderId ticks).engine.openedOrders)
    (hOpened : ((after env autoOrderId ticks).engine.heap p).openTick = some tick)
    {bid ask bid' ask' : ℤ} (hTick : InPoints env tick bid ask)
    (hTick' : InPoints env tick' bid' ask') :
    ((after env autoOrderId ticks).initializeCompute env tick').onLevel env
        ((after env autoOrderId ticks).initializeCompute env tick').compute.nearestLevel p = false ↔
      LevelsApart env tick (bid + ask) tick' (bid' + ask') := by
  rw [(State.initializeCompute_compute env _ tick').1, ← levelKey_ne_iff hTick hTick',
    ← Bool.not_eq_true, onLevel_iff (inv_after env autoOrderId ticks) tick' hp hOpened]

def stepsOfFive : Env where
  symbol := .eurusd
  params := {
    volume := 1 / 10, sl := 1000, tp := 1000, softTp := 0, step := 5, lvlTolerance := 3
    tradesPerLvl := 1, closeCycleOnProfit := 0, sectionsInHalfRange := 100, sectionsOffset := 0
    maxLotsAllowed := 0, maxSpread := 0, plr := 0 }
  outOfRange := fun _ => Doubles.intMin
  accepted := by decide +kernel

/-- Mid prices of 100002 and of 100007 points, one step apart: the buy opened on the first of them
counts as one of the level of the second, which then opens none of its own. -/
theorem next_level_is_taken_for_the_same :
    gridIndex stepsOfFive (quote 1.00001 1.00003 0) ≠
        gridIndex stepsOfFive (quote 1.00006 1.00008 1000) ∧
      ((after stepsOfFive 0 [quote 1.00001 1.00003 0]).initializeCompute stepsOfFive
        (quote 1.00006 1.00008 1000)).onLevel stepsOfFive
          ((after stepsOfFive 0 [quote 1.00001 1.00003 0]).initializeCompute stepsOfFive
            (quote 1.00006 1.00008 1000)).compute.nearestLevel 0 = true ∧
      opens stepsOfFive (after stepsOfFive 0 [quote 1.00001 1.00003 0])
        (quote 1.00006 1.00008 1000) .buyOrder = false := by
  decide +kernel

theorem first_inPoints : InPoints stepsOfFive (quote 1.00001 1.00003 0) 100001 100003 :=
  ⟨by decide +kernel, by decide +kernel, by decide, by decide⟩

theorem third_inPoints : InPoints stepsOfFive (quote 1.00011 1.00013 1000) 100011 100013 :=
  ⟨by decide +kernel, by decide +kernel, by decide, by decide⟩

theorem third_level_is_told_apart :
    ((after stepsOfFive 0 [quote 1.00001 1.00003 0]).initializeCompute stepsOfFive
        (quote 1.00011 1.00013 1000)).onLevel stepsOfFive
          ((after stepsOfFive 0 [quote 1.00001 1.00003 0]).initializeCompute stepsOfFive
            (quote 1.00011 1.00013 1000)).compute.nearestLevel 0 = false :=
  (onLevel_other_level_iff stepsOfFive 0 [quote 1.00001 1.00003 0] (quote 1.00001 1.00003 0)
    (quote 1.00011 1.00013 1000) (by decide +kernel) (by decide +kernel) first_inPoints
    third_inPoints).mpr (by decide +kernel)

/-! ### Which steps keep all levels apart -/

theorem levelsApart_of_one_lt {env : Env} {tick tick' : TickData} {sum sum' : ℤ}
    (hFits : Fits env sum) (hFits' : Fits env sum')
    (h : 1 < |units env tick sum - units env tick' sum'|) :
    LevelsApart env tick sum tick' sum' := by
  obtain ⟨hLow, hHigh⟩ := wholeUnits_bounds env tick sum
  obtain ⟨hLow', hHigh'⟩ := wholeUnits_bounds env tick' sum'
  rw [LevelsApart, if_pos ⟨hFits, hFits'⟩]
  intro hEq
  rw [hEq] at hLow hHigh
  rcases lt_abs.mp h with hLt | hLt <;> linarith

theorem units_sub_units (env : Env) (tick tick' : TickData) (sum sum' : ℤ) :
    units env tick sum - units env tick' sum' =
      ((sum - 2 * aboveLine env tick - (sum' - 2 * aboveLine env tick') : ℤ) : ℚ) *
        (env.point * 5000) := by
  rw [units, units]
  push_cast
  ring

theorem wholePoints_sub_aboveLine (env : Env) (tick : TickData) :
    wholePoints env tick - aboveLine env tick = env.params.step * gridIndex env tick := by
  rw [gridIndex, Int.fdiv_eq_ediv_of_nonneg _ env.accepted_iff.2.2.2.2.1.le, aboveLine]
  linarith [Int.mul_ediv_add_emod (wholePoints env tick) env.params.step]

/-- Levels of two grid indices are a step less a point apart. -/
theorem le_abs_level_sub {env : Env} {tick tick' : TickData} {bid ask bid' ask' : ℤ}
    (h : InPoints env tick bid ask) (h' : InPoints env tick' bid' ask')
    (hFits : Fits env (bid + ask)) (hFits' : Fits env (bid' + ask'))
    (hIndex : gridIndex env tick ≠ gridIndex env tick') :
    2 * env.params.step - 2 ≤
      |bid + ask - 2 * aboveLine env tick - (bid' + ask' - 2 * aboveLine env tick')| := by
  obtain ⟨hLow, hHigh⟩ := sum_sub_wholePoints h hFits
  obtain ⟨hLow', hHigh'⟩ := sum_sub_wholePoints h' hFits'
  have hPos : 0 < env.params.step := env.accepted_iff.2.2.2.2.1
  have hGap : env.params.step ≤
      |env.params.step * gridIndex env tick - env.params.step * gridIndex env tick'| := by
    rw [← mul_sub, abs_mul, abs_of_pos hPos]
    exact le_mul_of_one_le_right hPos.le (Int.one_le_abs (sub_ne_zero.mpr hIndex))
  rw [← wholePoints_sub_aboveLine, ← wholePoints_sub_aboveLine] at hGap
  rcases le_abs.mp hGap with hSide | hSide
  · exact le_abs.mpr (.inl (by omega))
  · exact le_abs.mpr (.inr (by omega))

/-- All levels are told apart where a point is a thousandth and the step is two points, and where
the step is twelve. -/
theorem levelsApart_of_le_step {env : Env} {tick tick' : TickData} {bid ask bid' ask' : ℤ}
    (hStep : 12 ≤ env.params.step ∨ env.point = 1 / 1000 ∧ 2 ≤ env.params.step)
    (h : InPoints env tick bid ask) (h' : InPoints env tick' bid' ask')
    (hFits : Fits env (bid + ask)) (hFits' : Fits env (bid' + ask'))
    (hIndex : gridIndex env tick ≠ gridIndex env tick') :
    LevelsApart env tick (bid + ask) tick' (bid' + ask') := by
  apply levelsApart_of_one_lt hFits hFits'
  have hScale : 0 < env.point * 5000 := mul_pos env.point_pos (by norm_num)
  have hCast := Int.cast_le (R := ℚ).mpr (le_abs_level_sub h h' hFits hFits' hIndex)
  rw [Int.cast_abs] at hCast
  rw [units_sub_units, abs_mul, abs_of_pos hScale]
  refine lt_of_lt_of_le ?_ (mul_le_mul_of_nonneg_right hCast hScale.le)
  push_cast
  rcases hStep with hTwelve | ⟨hPoint, hTwo⟩
  · have hSteps : (12 : ℚ) ≤ env.params.step := by exact_mod_cast hTwelve
    have hLeast := mul_le_mul_of_nonneg_right
      (by linarith : (22 : ℚ) ≤ 2 * env.params.step - 2) hScale.le
    linarith [env.point_bounds.1]
  · have hSteps : (2 : ℚ) ≤ env.params.step := by exact_mod_cast hTwo
    rw [hPoint]
    linarith

end Fxquant.Ladder
