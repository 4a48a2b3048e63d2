import Fxquant.Ladder.Sections

/-!
# The gates without sections

`set_dynamic_section_risk` takes the limit on lots for the risk when `sections_in_half_range` is
zero, and then overwrites it with the limit divided by that zero. The infinite risk lets the soft
take profit change the lots without a limit, where the opening of orders keeps it.
-/

namespace Fxquant.Ladder

open State

/-- The soft take profit may change the lots as the opening of orders may. -/
def GatesAgree (env : Env) (c : Compute) : Prop :=
  ∀ lots, isDynamicChangeAllowed env c lots = isChangeLotsAllowed env c lots

/-- The risk is a number; after a division by zero it is none. -/
def HasRisk (c : Compute) : Prop := ∃ risk : ℚ, c.dynamicSectionRisk = .fin risk

/-- Without sections every tick is in the section that the offset names. -/
theorem sectionOf_of_no_sections {env : Env} {s : State} {tick : TickData}
    (hSections : env.params.sectionsInHalfRange = 0)
    (hRange : 0 < (s.initializeCompute env tick).compute.range) :
    sectionOf env s tick = env.params.sectionsOffset := by
  have hAway : sectionsAway env s tick = 0 := by
    rw [sectionsAway, hSections]
    simp
  have hZero : env.toInt (.fin (0 : ℤ)) = 0 := by
    rw [Env.toInt, Doubles.toInt_of_range, Doubles.trunc_intCast]
    rw [Doubles.trunc_intCast]
    decide
  have hOffset := env.sectionsOffset_range
  rw [sectionOf_eq hRange, hAway, Int.floor_zero, hZero,
    Doubles.addInt_of_range (by rwa [zero_add]), zero_add]

theorem risk_of_no_sections {env : Env} {s : State} {tick : TickData}
    (hSections : env.params.sectionsInHalfRange = 0) (hOffset : 0 < env.params.sectionsOffset)
    (hLots : 0 < env.params.maxLotsAllowed)
    (hRange : 0 < (s.initializeCompute env tick).compute.range) :
    (s.initializeCompute env tick).compute.dynamicSectionRisk = .inf false := by
  have hSection : (s.initializeCompute env tick).compute.section_ = env.params.sectionsOffset :=
    sectionOf_of_no_sections hSections hRange
  have hQuotient : Doubles.Double.quotient env.params.maxLotsAllowed
      env.params.sectionsInHalfRange = .inf false := by
    rw [hSections, Doubles.Double.quotient, if_pos Int.cast_zero, if_neg hLots.ne',
      decide_eq_false (not_lt.mpr hLots.le)]
  have hPos : (0 : ℚ) < env.params.sectionsOffset := by exact_mod_cast hOffset
  rw [(initializeCompute_compute env s tick).2.2.1, hSection, hQuotient, Doubles.Double.scale,
    if_neg hPos.ne', decide_eq_false (not_lt.mpr hPos.le)]
  rfl

theorem isDynamicChangeAllowed_of_inf (env : Env) {c : Compute} (hSection : 0 < c.section_)
    (hRisk : c.dynamicSectionRisk = .inf false) (lots : ℚ) :
    isDynamicChangeAllowed env c lots = true := by
  rw [isDynamicChangeAllowed]
  simp only [hSection, if_true, hRisk]
  split
  · rfl
  · rfl

/-- A change beyond the limit, and beyond the present exposure, is kept back. -/
theorem exists_not_isChangeLotsAllowed {env : Env} {c : Compute} (hSection : 0 < c.section_)
    (hLots : 0 < env.params.maxLotsAllowed) : ∃ lots, isChangeLotsAllowed env c lots = false := by
  refine ⟨|c.lotsExposure| + env.params.maxLotsAllowed + 1 - c.lotsExposure, ?_⟩
  have hNew : c.lotsExposure + (|c.lotsExposure| + env.params.maxLotsAllowed + 1 - c.lotsExposure) =
      |c.lotsExposure| + env.params.maxLotsAllowed + 1 := by ring
  have hAbs := abs_nonneg c.lotsExposure
  rw [isChangeLotsAllowed, if_neg (not_le.mpr hLots)]
  simp only [hSection.le, if_true, hNew, Bool.or_eq_false_iff, decide_eq_false_iff_not, not_le, not_lt]
  rw [abs_of_pos (by linarith : 0 < |c.lotsExposure| + env.params.maxLotsAllowed + 1)]
  constructor <;> linarith

/-- Without sections a division by zero takes place on every tick, and the gates differ. -/
theorem no_sections_divide_by_zero (env : Env) (autoOrderId : ℕ) (ticks : List TickData)
    (tick : TickData) (hSections : env.params.sectionsInHalfRange = 0)
    (hOffset : 0 < env.params.sectionsOffset) (hLots : 0 < env.params.maxLotsAllowed)
    (hRange : 0 < ((after env autoOrderId ticks).initializeCompute env tick).compute.range) :
    ¬ HasRisk ((after env autoOrderId ticks).initializeCompute env tick).compute ∧
      ¬ GatesAgree env ((after env autoOrderId ticks).initializeCompute env tick).compute := by
  have hRisk := risk_of_no_sections hSections hOffset hLots hRange
  have hSection : 0 < ((after env autoOrderId ticks).initializeCompute env tick).compute.section_ := by
    have hEq := sectionOf_of_no_sections hSections hRange
    rw [sectionOf] at hEq
    rw [hEq]
    exact hOffset
  constructor
  · rintro ⟨risk, hFinite⟩
    cases hRisk.symm.trans hFinite
  · intro hAgree
    obtain ⟨lots, hKept⟩ := exists_not_isChangeLotsAllowed hSection hLots
    have hPasses := isDynamicChangeAllowed_of_inf env hSection hRisk lots
    rw [hAgree lots, hKept] at hPasses
    cases hPasses

def noSections : Env where
  symbol := .eurusd
  params := {
    volume := 1 / 10, sl := 200, tp := 200, softTp := 20, step := 100, lvlTolerance := 5
    tradesPerLvl := 1, closeCycleOnProfit := 0, sectionsInHalfRange := 0, sectionsOffset := 5
    maxLotsAllowed := 1, maxSpread := 0, plr := 0 }
  outOfRange := fun _ => Doubles.intMin
  accepted := by decide +kernel

/-- On the first tick, with no order open and a limit of one lot, a change of two lots passes the
one gate only. -/
theorem two_lots_pass_one_gate :
    ¬ (HasRisk ((after noSections 0 []).initializeCompute noSections (quote 1.0000 1.0001 0)).compute ∧
      GatesAgree noSections
        ((after noSections 0 []).initializeCompute noSections (quote 1.0000 1.0001 0)).compute) := by
  rintro ⟨_, hAgree⟩
  exact absurd (hAgree 2) (by decide +kernel)

theorem first_tick_divides_by_zero :
    ¬ HasRisk ((after noSections 0 []).initializeCompute noSections (quote 1.0000 1.0001 0)).compute ∧
      ¬ GatesAgree noSections
        ((after noSections 0 []).initializeCompute noSections (quote 1.0000 1.0001 0)).compute :=
  no_sections_divide_by_zero noSections 0 [] (quote 1.0000 1.0001 0) rfl (by decide) (by decide +kernel)
    (by decide +kernel)

end Fxquant.Ladder
