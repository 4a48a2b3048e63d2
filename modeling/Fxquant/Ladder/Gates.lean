import Fxquant.Ladder.Exposure

/-!
# The gates of the lots limit

`is_change_lots_allowed` guards the opening of orders, `is_dynamic_change_allowed` the soft take
profit. Exchanging longs and shorts exchanges the halves of the range, and a gate that treats both
alike answers the same; the first one does not below section zero. Opening keeps the limit from
section zero on, although both directions are tested against one and the same exposure.
-/

namespace Fxquant.Ladder

open FxEngine Compute State

/-! ### Longs and shorts exchanged -/

/-- The figures with longs and shorts exchanged, and the halves of the range with them. -/
def Compute.mirror (c : Compute) : Compute :=
  { c with lotsExposure := -c.lotsExposure, isTopHalf := !c.isTopHalf }

def GatesMirror (env : Env) (c : Compute) (lots : ℚ) : Prop :=
  isChangeLotsAllowed env c.mirror (-lots) = isChangeLotsAllowed env c lots ∧
    isDynamicChangeAllowed env c.mirror (-lots) = isDynamicChangeAllowed env c lots

/-- Below section zero the change goes the way of its half, up in the top half and down in the
bottom half, or it ends on the limit of its half. -/
def ChangesWithHalf (env : Env) (c : Compute) (lots : ℚ) : Prop :=
  if c.isTopHalf then 0 < lots ∨ c.lotsExposure + lots = env.params.maxLotsAllowed
  else lots < 0 ∨ c.lotsExposure + lots = -env.params.maxLotsAllowed

theorem mirror_add_neg (c : Compute) (lots : ℚ) :
    c.mirror.lotsExposure + -lots = -(c.lotsExposure + lots) :=
  (neg_add c.lotsExposure lots).symm

theorem isDynamicChangeAllowed_mirror (env : Env) (c : Compute) (lots : ℚ) :
    isDynamicChangeAllowed env c.mirror (-lots) = isDynamicChangeAllowed env c lots := by
  have hTop : ∀ (risk : Doubles.Double) (x : ℚ),
      (Doubles.Double.fin (-x)).le risk.neg = risk.le (.fin x) := fun risk x =>
    Doubles.Double.le_neg_neg risk (.fin x)
  have hBottom : ∀ (risk : Doubles.Double) (x : ℚ),
      risk.le (.fin (-x)) = (Doubles.Double.fin x).le risk.neg := fun risk x => by
    rw [← hTop, neg_neg]
  rw [isDynamicChangeAllowed, isDynamicChangeAllowed]
  split
  · rfl
  · simp only [mirror_add_neg, abs_neg]
    by_cases hSection : 0 < c.section_
    · simp only [mirror, hSection, if_true, abs_neg]
    · cases hHalf : c.isTopHalf with
      | true =>
        simp only [mirror, hSection, hHalf, hTop, if_false, if_true, Bool.not_true,
          Bool.false_eq_true, neg_le_neg_iff]
      | false =>
        simp only [mirror, hSection, hHalf, hBottom, if_false, if_true, Bool.not_false,
          Bool.false_eq_true, neg_le_neg_iff]

theorem le_or_eq_ge_or_iff {x limit : ℚ} {p : Prop} [Decidable p] :
    (decide (limit ≤ x) || decide p) = (decide (x ≤ limit) || decide p) ↔ p ∨ x = limit := by
  by_cases hp : p
  · simp [hp]
  · simp only [hp, decide_false, Bool.or_false, decide_eq_decide, false_or]
    constructor
    · intro hIff
      rcases le_total limit x with h | h
      · exact le_antisymm (hIff.mp h) h
      · exact le_antisymm h (hIff.mpr h)
    · rintro rfl
      exact Iff.rfl

/-- Top half: the change is let go up to the limit or if it goes up; its mirror image, from the
limit on or if it goes up. -/
theorem isChangeLotsAllowed_mirror_iff (env : Env) (c : Compute) (lots : ℚ) :
    isChangeLotsAllowed env c.mirror (-lots) = isChangeLotsAllowed env c lots ↔
      env.params.maxLotsAllowed ≤ 0 ∨ 0 ≤ c.section_ ∨ ChangesWithHalf env c lots := by
  rw [isChangeLotsAllowed, isChangeLotsAllowed, ChangesWithHalf]
  split
  · rename_i hLots
    exact iff_of_true rfl (.inl hLots)
  · rename_i hLots
    rw [or_iff_right hLots]
    simp only [mirror_add_neg, abs_neg]
    by_cases hSection : 0 ≤ c.section_
    · simp only [mirror, hSection, if_true, abs_neg, true_or]
    · cases hHalf : c.isTopHalf with
      | true =>
        simp only [mirror, hSection, hHalf, if_false, if_true, Bool.not_true, Bool.false_eq_true,
          neg_le_neg_iff, neg_lt_neg_iff, false_or, lt_add_iff_pos_right]
        exact le_or_eq_ge_or_iff
      | false =>
        simp only [mirror, hSection, hHalf, if_false, if_true, Bool.not_false, Bool.false_eq_true,
          neg_lt_neg_iff, false_or, add_lt_iff_neg_left]
        simp only [neg_le (a := c.lotsExposure + lots)]
        exact le_or_eq_ge_or_iff

/-- The gates treat longs and shorts alike unless a limit is set, the section is below zero and the
change is tested against the limit of the other half. -/
theorem gatesMirror_iff (env : Env) (c : Compute) (lots : ℚ) :
    GatesMirror env c lots ↔
      env.params.maxLotsAllowed ≤ 0 ∨ 0 ≤ c.section_ ∨ ChangesWithHalf env c lots := by
  rw [GatesMirror, isChangeLotsAllowed_mirror_iff]
  exact and_iff_left (isDynamicChangeAllowed_mirror env c lots)

def oneLot : Env where
  symbol := .eurusd
  params := {
    volume := 1 / 2, sl := 50, tp := 50, softTp := 0, step := 100, lvlTolerance := 5
    tradesPerLvl := 1, closeCycleOnProfit := 0, sectionsInHalfRange := 100, sectionsOffset := -50
    maxLotsAllowed := 1, maxSpread := 0, plr := 0 }
  outOfRange := fun _ => Doubles.intMin
  accepted := by decide +kernel

/-- A sell in the top half passes, its mirror image, a buy in the bottom half, does not. -/
theorem sell_in_top_half_has_no_mirror :
    ¬ GatesMirror oneLot { isTopHalf := true, section_ := -1 } (-1 / 2) := by
  intro hMirror
  exact absurd hMirror.1 (by decide +kernel)

/-! ### The limit while orders are opened -/

theorem Sends.exposure_eq (env : Env) {e e' : FxEngine} {tick : TickData} {type : OrderType}
    {b : Bool} (h : Sends e e' tick type b) (hAllocated : ∀ p ∈ e.openedOrders, p < e.nextPtr)
    (hVolume : b = true → (e'.heap e.nextPtr).volume = env.params.volume) :
    exposure e' = exposure e + if b then sideLots env type else 0 := by
  have hOld : e.openedOrders.map (fun p => signedVolume (e'.heap p)) =
      e.openedOrders.map fun p => signedVolume (e.heap p) :=
    List.map_congr_left fun p hp => by rw [h.old p (hAllocated p hp)]
  rw [exposure, h.openedOrders, List.map_append, List.sum_append, hOld, exposure]
  congr 1
  cases b with
  | false => rfl
  | true =>
    have hNew : signedVolume (e'.heap e.nextPtr) = sideLots env type := by
      rw [signedVolume, sideLots, (h.new rfl).1, hVolume rfl]
    simpa using hNew

/-- What a tick opens adds its lots to the exposure. -/
theorem exposure_opened {env : Env} {s : State} (h : Inv env s) (tick : TickData) :
    exposure (s.opened env tick).engine = exposure s.engine +
      (if opens env s tick .buyOrder then env.params.volume else 0) +
      if opens env s tick .sellOrder then -env.params.volume else 0 := by
  obtain ⟨e, hBuy, hSell⟩ := sends_opened env s tick
  have hVolume : ∀ p < (s.opened env tick).engine.nextPtr,
      ((s.opened env tick).engine.heap p).volume = env.params.volume := fun p hp =>
    ((h.opened tick).orders p hp).2.2.1
  have hAllocated : ∀ p ∈ s.engine.openedOrders, p < s.engine.nextPtr :=
    fun p hp => h.book.allocated p (by simp [hp])
  rw [hSell.exposure_eq env (hBuy.allocated hAllocated), hBuy.exposure_eq env hAllocated]
  · rfl
  · intro hOpens
    have hLt : s.engine.nextPtr < e.nextPtr := by
      rw [hBuy.nextPtr, if_pos hOpens]
      exact Nat.lt_succ_self _
    rw [← hSell.old _ hLt]
    apply hVolume
    rw [hSell.nextPtr]
    exact Nat.lt_add_right _ hLt
  · intro hOpens
    apply hVolume
    rw [hSell.nextPtr, if_pos hOpens]
    exact Nat.lt_succ_self _

/-- From section zero on, an order is opened only if its lots alone keep the limit or reduce the
exposure. -/
theorem opens_limits {env : Env} {s : State} {tick : TickData} {type : OrderType}
    (hLots : 0 < env.params.maxLotsAllowed) (hSection : 0 ≤ sectionOf env s tick)
    (h : opens env s tick type = true) :
    |exposure s.engine + sideLots env type| ≤ env.params.maxLotsAllowed ∨
      |exposure s.engine + sideLots env type| < |exposure s.engine| := by
  have hGate : isChangeLotsAllowed env (s.initializeCompute env tick).compute (sideLots env type) =
      true := by
    simp only [opens, sends, asks, passesTests, Bool.and_eq_true] at h
    exact h.1.2.2.2
  rw [isChangeLotsAllowed, if_neg (not_le.mpr hLots), (initializeCompute_compute env s tick).2.1] at hGate
  rw [sectionOf] at hSection
  simpa only [hSection, if_true, Bool.or_eq_true, decide_eq_true_eq] using hGate

/-- Both directions are tested against the exposure from before either; when both open, their lots
cancel. -/
theorem opening_keeps_limit (env : Env) (autoOrderId : ℕ) (ticks : List TickData) (tick : TickData)
    (hLots : 0 < env.params.maxLotsAllowed)
    (hSection : 0 ≤ sectionOf env (after env autoOrderId ticks) tick) :
    |exposure ((after env autoOrderId ticks).opened env tick).engine| ≤
      max env.params.maxLotsAllowed |exposure (after env autoOrderId ticks).engine| := by
  have hExposure := exposure_opened (inv_after env autoOrderId ticks) tick
  have hKeeps : ∀ type, opens env (after env autoOrderId ticks) tick type = true →
      |exposure (after env autoOrderId ticks).engine + sideLots env type| ≤
        max env.params.maxLotsAllowed |exposure (after env autoOrderId ticks).engine| := by
    intro type hOpens
    rcases opens_limits hLots hSection hOpens with hLimit | hLess
    · exact le_max_of_le_left hLimit
    · exact le_max_of_le_right hLess.le
  rw [hExposure]
  cases hBuy : opens env (after env autoOrderId ticks) tick .buyOrder <;>
    cases hSell : opens env (after env autoOrderId ticks) tick .sellOrder
  · simp
  · simpa using hKeeps .sellOrder hSell
  · simpa using hKeeps .buyOrder hBuy
  · simp

theorem third_rising_tick_keeps_limit :
    |exposure ((after tenthOfALot 0 (risingTicks.take 2)).opened tenthOfALot
        (quote 1.001 1.00101 2000)).engine| ≤
      max tenthOfALot.params.maxLotsAllowed |exposure (after tenthOfALot 0 (risingTicks.take 2)).engine| :=
  opening_keeps_limit tenthOfALot 0 (risingTicks.take 2) (quote 1.001 1.00101 2000)
    (by decide +kernel) (by decide +kernel)

end Fxquant.Ladder
