import Fxquant.Ladder.Exposure
import Fxquant.Ladder.Range

/-!
# The range of the section number

`set_section_i_am_in` counts sections from the nearer end of the range, and the range goes from
the lowest to the highest among the bid and the open prices, while the position in it is that of
the mid price. So the mid price can be above the range, and the rounding of the distance and of
the range can put it past the middle. The sum with the offset is one of `int`, which can overflow.
-/

namespace Fxquant.Ladder

open Compute Doubles

def SectionInRange (env : Env) (s : State) (tick : TickData) : Prop :=
  env.params.sectionsOffset ≤ sectionOf env s tick ∧
    sectionOf env s tick ≤ env.params.sectionsOffset + env.params.sectionsInHalfRange

/-- The distance of the mid price from the nearer end of the range. -/
def nearerEnd (s : State) (tick : TickData) : ℚ :=
  min (rounded (tick.midPrice - minOf tick.bid (openPrices s.engine)))
    (rounded (maxOf tick.bid (openPrices s.engine) - tick.midPrice))

/-- The distance in points, and the points of the range. -/
def distancePoints (env : Env) (s : State) (tick : TickData) : ℤ :=
  roundedPoints env.symbol (nearerEnd s tick)

def rangePoints (env : Env) (s : State) (tick : TickData) : ℤ :=
  if s.engine.openedOrders = [] then 1
  else roundedPoints env.symbol
    (rounded (maxOf tick.bid (openPrices s.engine) - minOf tick.bid (openPrices s.engine)))

/-- The mid price is not half a point above the range, and the points do not put it past the middle;
or they do by one half, and there are fewer sections than points, by more than the digits of a
double. -/
def StaysInside (env : Env) (s : State) (tick : TickData) : Prop :=
  env.params.sectionsOffset + env.params.sectionsInHalfRange ≤ intMax ∧
    (env.params.sectionsInHalfRange = 0 ∨
      0 ≤ distancePoints env s tick ∧
        (2 * distancePoints env s tick ≤ rangePoints env s tick ∨
          2 * distancePoints env s tick = rangePoints env s tick + 1 ∧
            env.params.sectionsInHalfRange < rangePoints env s tick ∧
            (env.params.sectionsInHalfRange + 1) * rangePoints env s tick ≤ 2 ^ 49))

instance (env : Env) (s : State) (tick : TickData) : Decidable (StaysInside env s tick) :=
  inferInstanceAs (Decidable (_ ∧ _))

/-- The double of a number of points. -/
def priceOf (env : Env) (points : ℤ) : ℚ := rounded (points / 10 ^ decimals env.symbol)

/-- How many sections the mid price is away from the nearer end of the range. -/
def sectionsAway (env : Env) (s : State) (tick : TickData) : ℚ :=
  rounded (rounded (rounded (priceOf env (distancePoints env s tick) *
    env.params.sectionsInHalfRange) * 2) / priceOf env (rangePoints env s tick))

theorem priceOf_one (env : Env) : priceOf env 1 = env.roundedPoint := by
  rw [priceOf, Env.roundedPoint, Env.point, Int.cast_one, ← symbolPip_eq]

theorem range_eq (env : Env) (s : State) (tick : TickData) :
    (s.initializeCompute env tick).compute.range = priceOf env (rangePoints env s tick) := by
  rw [(State.initializeCompute_compute env s tick).2.2.2, rangePoints]
  split
  · exact (priceOf_one env).symm
  · rfl

theorem sectionOf_eq {env : Env} {s : State} {tick : TickData}
    (h : 0 < (s.initializeCompute env tick).compute.range) :
    sectionOf env s tick =
      addInt (env.toInt (.fin ⌊sectionsAway env s tick⌋)) env.params.sectionsOffset := by
  obtain ⟨_, _, _, ⟨equity, closeProfit, hCompute⟩, _⟩ := State.initializeCompute_frame env s tick
  obtain ⟨_, _, hRange, hSection, _, _⟩ := loopOpenedOrders_frame s.engine
    ((((((s.compute.resetValues tick).setOpenTradesMinmaxAndRange env s.engine tick).setTopHalf
      ).setSectionIAmIn env).setDynamicSectionRisk env).setNearestLevel env)
  have hNearer : nearerEnd s tick =
      if rounded (tick.midPrice - minOf tick.bid (openPrices s.engine)) <
          rounded (maxOf tick.bid (openPrices s.engine) - tick.midPrice) then
        rounded (tick.midPrice - minOf tick.bid (openPrices s.engine))
      else rounded (maxOf tick.bid (openPrices s.engine) - tick.midPrice) := min_def_lt _ _
  have hFloor : (Double.quotient (rounded (rounded (priceOf env (distancePoints env s tick) *
      env.params.sectionsInHalfRange) * 2)) (s.initializeCompute env tick).compute.range).rounded.floor =
        .fin ⌊sectionsAway env s tick⌋ := by
    rw [Double.quotient_of_ne h.ne', range_eq]
    rfl
  rw [sectionOf, ← hFloor, hCompute]
  change (s.figures env tick).section_ = addInt (env.toInt (Double.quotient _
    (s.figures env tick).range).rounded.floor) _
  rw [State.figures, hSection, hRange, distancePoints, hNearer]
  rfl

theorem priceOf_bounds (env : Env) {points : ℤ} (h : 1 ≤ points) :
    1 / 2 ^ 20 ≤ priceOf env points ∧
      (points : ℚ) / 10 ^ decimals env.symbol * (1 - 1 / 2 ^ 52) ≤ priceOf env points ∧
      priceOf env points ≤ (points : ℚ) / 10 ^ decimals env.symbol * (1 + 1 / 2 ^ 52) := by
  have hPoints : (1 : ℚ) ≤ points := by exact_mod_cast h
  have hPrice : (1 / 2 ^ 19 : ℚ) ≤ points / 10 ^ decimals env.symbol := by
    rw [div_le_div_iff₀ (by norm_num) (by positivity), one_mul]
    rcases decimals_cases env.symbol with hEq | hEq <;> rw [hEq] <;> norm_num <;> linarith
  obtain ⟨hLow, hHigh⟩ := rounded_bounds (le_trans (by norm_num) hPrice)
  exact ⟨by rw [priceOf]; norm_num at *; linarith, hLow, hHigh⟩

/-- The rounding of the price, of the product and of its double. -/
theorem doubledProduct_bounds (env : Env) {distance n : ℤ} (hDistance : 1 ≤ distance)
    (hn : 1 ≤ n) :
    0 ≤ rounded (rounded (priceOf env distance * n) * 2) ∧
      rounded (rounded (priceOf env distance * n) * 2) ≤
        distance / 10 ^ decimals env.symbol * n * 2 * (1 + 1 / 2 ^ 50) := by
  obtain ⟨hLeast, _, hHigh⟩ := priceOf_bounds env hDistance
  have hnCast : (1 : ℚ) ≤ n := by exact_mod_cast hn
  have hDistanceCast : (0 : ℚ) ≤ distance := by exact_mod_cast zero_le_one.trans hDistance
  have hProductLeast : 1 / 2 ^ 20 ≤ priceOf env distance * n := by
    refine hLeast.trans (le_mul_of_one_le_right ?_ hnCast)
    exact le_trans (by norm_num) hLeast
  obtain ⟨hLowProduct, hHighProduct⟩ := rounded_bounds (le_trans (by norm_num) hProductLeast)
  have hDoubleLeast : 1 / 2 ^ 60 ≤ rounded (priceOf env distance * n) * 2 := by
    norm_num at *
    linarith
  have hHighDouble := (rounded_bounds hDoubleLeast).2
  have hPrice : priceOf env distance * n ≤
      (distance : ℚ) / 10 ^ decimals env.symbol * (1 + 1 / 2 ^ 52) * n :=
    mul_le_mul_of_nonneg_right hHigh (by linarith)
  have hBase : 0 ≤ (distance : ℚ) / 10 ^ decimals env.symbol * n :=
    mul_nonneg (div_nonneg hDistanceCast (by positivity)) (by linarith)
  refine ⟨rounded_nonneg (le_trans (by norm_num) hDoubleLeast), ?_⟩
  norm_num at *
  linarith

/-- With the rounding of the range it adds up to a few parts of the last digit. -/
theorem sections_le (env : Env) {distance n range : ℤ} (hDistance : 1 ≤ distance) (hn : 1 ≤ n)
    (hRange : 1 ≤ range) :
    rounded (rounded (priceOf env distance * n) * 2) / priceOf env range *
        (range * (1 - 1 / 2 ^ 52)) ≤ 2 * distance * n * (1 + 1 / 2 ^ 50) := by
  obtain ⟨hNonneg, hProduct⟩ := doubledProduct_bounds env hDistance hn
  obtain ⟨hLeastRange, hLowRange, _⟩ := priceOf_bounds env hRange
  have hTen : (0 : ℚ) < 10 ^ decimals env.symbol := by positivity
  have hPos : 0 < priceOf env range := lt_of_lt_of_le (by norm_num) hLeastRange
  have hScale : (range : ℚ) * (1 - 1 / 2 ^ 52) ≤
      priceOf env range * 10 ^ decimals env.symbol := by
    have hMul := mul_le_mul_of_nonneg_right hLowRange hTen.le
    rwa [mul_right_comm, div_mul_cancel₀ _ hTen.ne'] at hMul
  calc rounded (rounded (priceOf env distance * n) * 2) / priceOf env range *
        (range * (1 - 1 / 2 ^ 52))
      ≤ rounded (rounded (priceOf env distance * n) * 2) / priceOf env range *
          (priceOf env range * 10 ^ decimals env.symbol) :=
        mul_le_mul_of_nonneg_left hScale (div_nonneg hNonneg hPos.le)
    _ = rounded (rounded (priceOf env distance * n) * 2) * 10 ^ decimals env.symbol := by
        rw [← mul_assoc, div_mul_cancel₀ _ hPos.ne']
    _ ≤ (distance / 10 ^ decimals env.symbol * n * 2 * (1 + 1 / 2 ^ 50)) *
          10 ^ decimals env.symbol := mul_le_mul_of_nonneg_right hProduct hTen.le
    _ = 2 * distance * n * (1 + 1 / 2 ^ 50) := by
        field_simp

/-- Points that do not pass the middle, or do by one half where the sections are few, are not a
section past the last. -/
theorem sections_lt (env : Env) {distance n range : ℤ} (hDistance : 1 ≤ distance) (hn : 1 ≤ n)
    (hnLe : n ≤ intMax) (hRange : 1 ≤ range)
    (hMiddle : 2 * distance ≤ range ∨
      2 * distance = range + 1 ∧ n < range ∧ (n + 1) * range ≤ 2 ^ 49) :
    rounded (rounded (rounded (priceOf env distance * n) * 2) / priceOf env range) < n + 1 := by
  have hBound := sections_le env hDistance hn hRange
  have hnCast : (1 : ℚ) ≤ n := by exact_mod_cast hn
  have hnCastLe : (n : ℚ) ≤ 2 ^ 31 := by exact_mod_cast hnLe.trans (by decide)
  have hRangeCast : (1 : ℚ) ≤ range := by exact_mod_cast hRange
  have hProduct : 2 * distance * n * (1 + 1 / 2 ^ 50) ≤
      (n + 1) * (1 - 1 / 2 ^ 51) * ((range : ℚ) * (1 - 1 / 2 ^ 52)) := by
    rcases hMiddle with hHalf | ⟨hPast, hFew, hDigits⟩
    · have hHalfCast : (2 : ℚ) * distance ≤ range := by exact_mod_cast hHalf
      have hMul := mul_le_mul_of_nonneg_right hHalfCast (by linarith : (0 : ℚ) ≤ n)
      have hMulRange := mul_le_mul_of_nonneg_right hnCastLe (by linarith : (0 : ℚ) ≤ range)
      norm_num at *
      linarith
    · have hPastCast : (2 : ℚ) * distance = range + 1 := by exact_mod_cast hPast
      have hFewCast : (n : ℚ) + 1 ≤ range := by exact_mod_cast hFew
      have hDigitsCast : ((n : ℚ) + 1) * range ≤ 2 ^ 49 := by exact_mod_cast hDigits
      rw [hPastCast]
      norm_num at *
      linarith
  have hQuotient : rounded (rounded (priceOf env distance * n) * 2) / priceOf env range ≤
      (n + 1) * (1 - 1 / 2 ^ 51) := by
    have hPos : 0 < (range : ℚ) * (1 - 1 / 2 ^ 52) := mul_pos (by linarith) (by norm_num)
    exact le_of_mul_le_mul_right (hBound.trans hProduct) hPos
  have hRounded := (rounded_bounds (x := ((n : ℚ) + 1) * (1 - 1 / 2 ^ 51))
    (by norm_num; linarith)).2
  refine (rounded_mono hQuotient).trans_lt (hRounded.trans_lt ?_)
  norm_num
  linarith

theorem floor_sectionsAway_bounds {env : Env} {s : State} {tick : TickData}
    (hInside : StaysInside env s tick)
    (hRange : 0 < (s.initializeCompute env tick).compute.range) :
    0 ≤ ⌊sectionsAway env s tick⌋ ∧ ⌊sectionsAway env s tick⌋ ≤ env.params.sectionsInHalfRange := by
  have hn : 0 ≤ env.params.sectionsInHalfRange := env.accepted_iff.2.2.2.2.2.2.2.2.1
  obtain ⟨_, hZero | ⟨hDistance, hMiddle⟩⟩ := hInside
  · simp [sectionsAway, hZero]
  · have hPoints : 1 ≤ rangePoints env s tick := by
      by_contra hNot
      rw [range_eq] at hRange
      have hNonpos : (rangePoints env s tick : ℚ) ≤ 0 := Int.cast_nonpos.mpr (by omega)
      have hLe := rounded_mono (div_nonpos_of_nonpos_of_nonneg hNonpos
        (by positivity : (0 : ℚ) ≤ 10 ^ decimals env.symbol))
      rw [rounded_zero, ← priceOf] at hLe
      linarith
    have hPrice : ∀ points : ℤ, 0 ≤ points → 0 ≤ priceOf env points := fun points h =>
      rounded_nonneg (div_nonneg (Int.cast_nonneg h) (by positivity))
    have hNonneg : 0 ≤ sectionsAway env s tick :=
      rounded_nonneg (div_nonneg (rounded_nonneg (mul_nonneg (rounded_nonneg
        (mul_nonneg (hPrice _ hDistance) (Int.cast_nonneg hn))) zero_le_two)) (hPrice _ (by omega)))
    refine ⟨Int.floor_nonneg.mpr hNonneg, Int.le_of_lt_add_one (Int.floor_lt.mpr ?_)⟩
    push_cast
    rcases hn.eq_or_lt with hZero | hPos
    · simp [sectionsAway, ← hZero]
    · rcases hDistance.eq_or_lt with hNone | hSome
      · rw [sectionsAway, ← hNone]
        simp only [priceOf, Int.cast_zero, zero_div, rounded_zero, zero_mul]
        exact add_pos_of_nonneg_of_pos (Int.cast_nonneg hn) one_pos
      · exact sections_lt env hSome hPos env.sectionsInHalfRange_range.2 hPoints hMiddle

theorem sectionInRange_of_staysInside {env : Env} {s : State} {tick : TickData}
    (hInside : StaysInside env s tick)
    (hRange : 0 < (s.initializeCompute env tick).compute.range) : SectionInRange env s tick := by
  obtain ⟨hLow, hHigh⟩ := floor_sectionsAway_bounds hInside hRange
  have hn := env.sectionsInHalfRange_range.2
  have hOffset := env.sectionsOffset_range.1
  have hSum := hInside.1
  have hInt : env.toInt (.fin ⌊sectionsAway env s tick⌋) = ⌊sectionsAway env s tick⌋ := by
    rw [Env.toInt, toInt_of_range, trunc_intCast]
    rw [trunc_intCast]
    exact ⟨le_trans (by decide) hLow, hHigh.trans hn⟩
  rw [SectionInRange, sectionOf_eq hRange, hInt, addInt_of_range (by omega)]
  omega

end Fxquant.Ladder
