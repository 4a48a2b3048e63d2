import Fxquant.Ladder.Reachable

/-!
# The exposure limit of the soft take profit

`is_dynamic_change_allowed` reads the exposure that `loop_opened_orders` stored when the tick
arrived. Orders are opened and closed between that moment and the soft take profit, so the gate
can let an order go that it would keep if it looked at the book.
-/

namespace Fxquant.Ladder

open FxEngine Compute

/-! ### Exposures -/

theorem exposure_recordClosed {e : FxEngine} {p : Ptr} (o : Order) (hNodup : e.openedOrders.Nodup)
    (hp : p ∈ e.openedOrders) :
    exposure ({ e with openedOrders := e.openedOrders.erase p }.recordClosed p o) =
      exposure e - signedVolume (e.heap p) := by
  have hGone : p ∉ e.openedOrders.erase p := hNodup.not_mem_erase
  have hKept := map_recordClosed { e with openedOrders := e.openedOrders.erase p }
    (fun _ => signedVolume) o hGone
  have hSum := ((List.perm_cons_erase hp).map fun q => signedVolume (e.heap q)).sum_eq
  rw [List.map_cons, List.sum_cons] at hSum
  rw [exposure, recordClosed_openedOrders, hKept, exposure, hSum]
  ring

theorem signedVolume_eq {env : Env} {s : State} {o : Order} (h : HasTerms env s o) :
    signedVolume o = State.sideLots env o.type := by
  obtain ⟨_, _, hVolume, _⟩ := h
  rw [signedVolume, State.sideLots, hVolume]

/-- All orders have the volume of the parameters, so an exposure is a whole multiple of it. -/
theorem Inv.exists_exposure_eq {env : Env} {s : State} (h : Inv env s) :
    ∃ n : ℤ, exposure s.engine = n * env.params.volume := by
  have hSum : ∀ l : List Ptr, (∀ p ∈ l, p ∈ s.engine.openedOrders) →
      ∃ n : ℤ, (l.map fun p => signedVolume (s.engine.heap p)).sum = n * env.params.volume := by
    intro l
    induction l with
    | nil => exact fun _ => ⟨0, by simp⟩
    | cons p l ih =>
      intro hl
      obtain ⟨n, hn⟩ := ih fun q hq => hl q (List.mem_cons_of_mem _ hq)
      have hp : p < s.engine.nextPtr := h.book.allocated p (by simp [hl p List.mem_cons_self])
      rw [List.map_cons, List.sum_cons, hn, signedVolume_eq (h.orders p hp), State.sideLots]
      split
      · exact ⟨n + 1, by push_cast; ring⟩
      · exact ⟨n - 1, by push_cast; ring⟩
  exact hSum s.engine.openedOrders fun p hp => hp

/-! ### What the soft take profit closes -/

namespace State

def found (env : Env) (s : State) (tick : TickData) (type : OrderType) : Option Ptr :=
  if type = .buyOrder then s.findProfitableBuy env tick else s.findProfitableSell env tick

/-- Whether the soft take profit closes an order of a direction: it finds one, and the gate, with
the exposure stored in the figures, lets its lots go. -/
def softCloses (env : Env) (s : State) (tick : TickData) (type : OrderType) : Bool :=
  decide (0 < env.params.softTp) && ((s.found env tick type).isSome &&
    isDynamicChangeAllowed env s.compute (-sideLots env type))

theorem exposure_closeIfAllowed {env : Env} {s : State} (h : Inv env s) (tick : TickData)
    {changeLots : Order → ℚ} {found : Option Ptr} {type : OrderType}
    (hFound : ∀ p, found = some p → p ∈ s.engine.openedOrders ∧ (s.engine.heap p).type = type)
    (hLots : ∀ o : Order, o.type = type → o.volume = env.params.volume →
      changeLots o = -sideLots env type) :
    exposure (s.closeIfAllowed env tick changeLots found).1.engine = exposure s.engine -
      if found.isSome && isDynamicChangeAllowed env s.compute (-sideLots env type) then
        sideLots env type else 0 := by
  have hTerms : ∀ p, found = some p → HasTerms env s (s.engine.heap p) := fun p hp =>
    h.orders p (h.book.allocated p (by simp [(hFound p hp).1]))
  have hChange : ∀ p, found = some p → changeLots (s.engine.heap p) = -sideLots env type :=
    fun p hp => hLots _ (hFound p hp).2 (hTerms p hp).2.2.1
  rcases closeIfAllowed_cases env tick changeLots h.book fun p hp => (hFound p hp).1 with
    ⟨hEq, hKeeps⟩ | ⟨p, o, hp, hMem, hAllowed, _, hEq⟩
  · rw [hEq]
    cases hCases : found with
    | none => simp
    | some p =>
      have hGate := hKeeps p hCases
      rw [hChange p hCases] at hGate
      simp [hGate]
  · rw [hChange p hp] at hAllowed
    have hVolume : signedVolume (s.engine.heap p) = sideLots env type := by
      rw [signedVolume_eq (hTerms p hp), (hFound p hp).2]
    have hNodup : s.engine.openedOrders.Nodup := (List.nodup_append'.mp h.book.nodup).1
    rw [hEq]
    simp only [hp, hAllowed, Option.isSome_some, Bool.and_self, if_true]
    rw [← hVolume]
    exact exposure_recordClosed o hNodup hMem

theorem exposure_softBuy {env : Env} {s : State} (h : Inv env s) (tick : TickData) :
    exposure (s.softBuy env tick).engine = exposure s.engine -
      if (s.findProfitableBuy env tick).isSome &&
        isDynamicChangeAllowed env s.compute (-sideLots env .buyOrder) then sideLots env .buyOrder else 0 :=
  exposure_closeIfAllowed h tick (fun _ hp => findProfitableBuy_spec hp)
    fun o _ hVolume => by rw [hVolume, sideLots_buy]

theorem exposure_softSell {env : Env} {s : State} (h : Inv env s) (tick : TickData) :
    exposure (s.softSell env tick).engine = exposure s.engine -
      if (s.findProfitableSell env tick).isSome &&
        isDynamicChangeAllowed env s.compute (-sideLots env .sellOrder) then sideLots env .sellOrder else 0 :=
  exposure_closeIfAllowed h tick (fun _ hp => findProfitableSell_spec hp)
    fun o _ hVolume => by rw [hVolume, sideLots_sell, neg_neg]

theorem foldl_erase_of_fixed {α β : Type*} [DecidableEq α] (f : β → α → β) {a : α}
    (h : ∀ b, f b a = b) (l : List α) (b : β) : (l.erase a).foldl f b = l.foldl f b := by
  induction l generalizing b with
  | nil => rfl
  | cons c l ih =>
    by_cases hc : c = a
    · subst hc
      rw [List.erase_cons_head, List.foldl_cons, h]
    · rw [List.erase_cons_tail (by simpa using hc), List.foldl_cons, List.foldl_cons, ih]

theorem findProfitableSell_softBuy (env : Env) {s : State} (tick : TickData)
    (h : s.engine.BookInv []) :
    (s.softBuy env tick).findProfitableSell env tick = s.findProfitableSell env tick := by
  rw [softBuy]
  rcases closeIfAllowed_cases env tick (fun o => -o.volume) h
      fun p hp => (findProfitableBuy_spec hp).1 with ⟨hEq, _⟩ | ⟨p, o, hp, hMem, _, _, hEq⟩
  · rw [hEq]
  · have hType : (s.engine.heap p).type = .buyOrder := (findProfitableBuy_spec hp).2
    have hNodup : s.engine.openedOrders.Nodup := (List.nodup_append'.mp h.nodup).1
    rw [hEq, findProfitableSell, findProfitableSell]
    congr 1
    refine Eq.trans (List.foldl_ext _ _ _ fun best q hq => ?_) (foldl_erase_of_fixed _ ?_ _ none)
    · have hNe : q ≠ p := ((hNodup.mem_erase_iff).mp hq).1
      simp only [recordClosed_heap, Function.update_of_ne hNe]
    · intro best
      simp [hType]

/-- The exposure after a tick, from that of the book just before the soft take profit. -/
theorem exposure_onTick {env : Env} {s : State} (h : Inv env s) (tick : TickData) :
    exposure (s.onTick env tick).engine = exposure (s.settled env tick).engine -
      (if (s.settled env tick).softCloses env tick .buyOrder then env.params.volume else 0) +
      (if (s.settled env tick).softCloses env tick .sellOrder then env.params.volume else 0) := by
  have hSettled : Inv env (s.settled env tick) := h.settled tick
  generalize hs : s.settled env tick = t at hSettled
  rw [onTick, hs, isSoftTpClosed_eq]
  split
  · rename_i hOff
    have hNone : ∀ type, t.softCloses env tick type = false := by
      intro type
      cases hOff with
      | inl hOff =>
        simp [softCloses, not_lt.mpr hOff]
      | inr hEmpty =>
        simp [softCloses, found, findProfitableBuy, findProfitableSell, hEmpty]
    simp [hNone]
  · rename_i hOn
    have hTp : 0 < env.params.softTp := not_le.mp (not_or.mp hOn).1
    have hCloses := onlyCloses_softBuy env tick hSettled.book
    have hBuy : Inv env (t.softBuy env tick) :=
      hSettled.of_onlyCloses hCloses (bookInv_softBuy env tick hSettled.book)
    have hClosesBuy : t.softCloses env tick .buyOrder = ((t.findProfitableBuy env tick).isSome &&
        isDynamicChangeAllowed env t.compute (-sideLots env .buyOrder)) := by
      simp [softCloses, found, hTp]
    have hClosesSell : t.softCloses env tick .sellOrder = ((t.findProfitableSell env tick).isSome &&
        isDynamicChangeAllowed env t.compute (-sideLots env .sellOrder)) := by
      simp [softCloses, found, hTp]
    rw [exposure_softSell hBuy, findProfitableSell_softBuy env tick hSettled.book, hCloses.compute,
      exposure_softBuy hSettled, ← hClosesBuy, ← hClosesSell, sideLots_buy, sideLots_sell]
    split_ifs <;> ring

end State

/-! ### The limit -/

def sectionOf (env : Env) (s : State) (tick : TickData) : ℤ :=
  (s.initializeCompute env tick).compute.section_

/-- The closes of the soft take profit keep the exposure within the risk of the section, or
within what it was just before. -/
def LimitsExposure (env : Env) (s : State) (tick : TickData) : Prop :=
  ∃ risk : ℚ, (s.initializeCompute env tick).compute.dynamicSectionRisk = .fin risk ∧
    |exposure (s.onTick env tick).engine| ≤ max |risk| |exposure (s.settled env tick).engine|

def seenFigures (env : Env) (s : State) (tick : TickData) : Compute :=
  { (s.settled env tick).compute with lotsExposure := exposure (s.settled env tick).engine }

/-- Where the soft take profit closes an order of one direction only, the gate would let its lots
go if it looked at the book. -/
def GateSeesBook (env : Env) (s : State) (tick : TickData) : Prop :=
  ((s.settled env tick).softCloses env tick .buyOrder = true →
    (s.settled env tick).softCloses env tick .sellOrder = false →
      State.isDynamicChangeAllowed env (seenFigures env s tick) (-env.params.volume) = true) ∧
  ((s.settled env tick).softCloses env tick .sellOrder = true →
    (s.settled env tick).softCloses env tick .buyOrder = false →
      State.isDynamicChangeAllowed env (seenFigures env s tick) env.params.volume = true)

theorem settled_compute (env : Env) {s : State} (tick : TickData) (h : s.engine.BookInv []) :
    (s.settled env tick).compute = (s.initializeCompute env tick).compute := by
  rw [(State.onlyCloses_settled env tick h).compute, opened_compute]

theorem isDynamicChangeAllowed_iff {env : Env} {c : Compute} {risk : ℚ} (lots : ℚ)
    (hLots : 0 < env.params.maxLotsAllowed) (hSection : 0 < c.section_)
    (hRisk : c.dynamicSectionRisk = .fin risk) :
    State.isDynamicChangeAllowed env c lots = true ↔
      |c.lotsExposure + lots| ≤ |risk| ∨ |c.lotsExposure + lots| < |c.lotsExposure| := by
  rw [State.isDynamicChangeAllowed, if_neg (not_le.mpr hLots)]
  simp only [hSection, if_true, hRisk, Doubles.Double.abs_fin, Bool.or_eq_true,
    Doubles.Double.le_fin_fin, decide_eq_true_eq]

/-- Of two neighbouring multiples of the volume one is farther from zero. -/
theorem abs_add_ne_of_multiple {v x : ℚ} (hv : 0 < v) (hx : ∃ n : ℤ, x = n * v) {sign : ℤ}
    (hSign : sign = 1 ∨ sign = -1) : |x + sign * v| ≠ |x| := by
  obtain ⟨n, rfl⟩ := hx
  have hFactor : (n : ℚ) * v + sign * v = ((n + sign : ℤ) : ℚ) * v := by push_cast; ring
  rw [hFactor, abs_mul, abs_mul]
  intro hEq
  have hCast : |((n + sign : ℤ) : ℚ)| = |(n : ℚ)| := mul_right_cancel₀ (abs_pos.mpr hv.ne').ne' hEq
  have hAbs : |n + sign| = |n| := by exact_mod_cast hCast
  rcases hSign with rfl | rfl <;> rcases abs_eq_abs.mp hAbs with h | h <;> omega

theorem abs_le_max_iff {x y risk : ℚ} (hNe : |x| ≠ |y|) :
    |x| ≤ max |risk| |y| ↔ |x| ≤ |risk| ∨ |x| < |y| := by
  rw [le_max_iff, le_iff_lt_or_eq (a := |x|) (b := |y|), or_iff_left hNe]

theorem limitsExposure_iff {env : Env} {s : State} {tick : TickData} (h : Inv env s)
    (hLots : 0 < env.params.maxLotsAllowed) (hSections : 0 < env.params.sectionsInHalfRange)
    (hSection : 0 < sectionOf env s tick) :
    LimitsExposure env s tick ↔ GateSeesBook env s tick := by
  have hCompute := settled_compute env tick h.book
  obtain ⟨risk, hRisk⟩ : ∃ risk : ℚ,
      (s.initializeCompute env tick).compute.dynamicSectionRisk = .fin risk := by
    rw [(State.initializeCompute_compute env s tick).2.2.1,
      Doubles.Double.quotient_of_ne (Int.cast_ne_zero.mpr hSections.ne')]
    exact ⟨_, rfl⟩
  have hSettled : Inv env (s.settled env tick) := h.settled tick
  have hGate : ∀ lots, State.isDynamicChangeAllowed env (seenFigures env s tick) lots = true ↔
      |exposure (s.settled env tick).engine + lots| ≤ |risk| ∨
        |exposure (s.settled env tick).engine + lots| < |exposure (s.settled env tick).engine| :=
    fun lots => isDynamicChangeAllowed_iff lots hLots (by rw [seenFigures, hCompute]; exact hSection)
      (by rw [seenFigures, hCompute]; exact hRisk)
  have hLimits : LimitsExposure env s tick ↔
      |exposure (s.onTick env tick).engine| ≤ max |risk| |exposure (s.settled env tick).engine| := by
    simp [LimitsExposure, hRisk]
  have hAfter := State.exposure_onTick h tick
  have hMultiple := hSettled.exists_exposure_eq
  generalize exposure (s.settled env tick).engine = before at hGate hLimits hAfter hMultiple
  rw [hLimits, GateSeesBook, hGate, hGate, hAfter]
  cases (s.settled env tick).softCloses env tick .buyOrder <;>
    cases (s.settled env tick).softCloses env tick .sellOrder
  · simp
  · have hNe := abs_add_ne_of_multiple env.volume_pos hMultiple (.inl rfl)
    rw [Int.cast_one, one_mul] at hNe
    simp [abs_le_max_iff hNe]
  · have hNe := abs_add_ne_of_multiple env.volume_pos hMultiple (.inr rfl)
    rw [Int.cast_neg, Int.cast_one, neg_one_mul] at hNe
    simp [sub_eq_add_neg, abs_le_max_iff hNe]
  · simp

def tenthOfALot : Env where
  symbol := .eurusd
  params := {
    volume := 1 / 10, sl := 50, tp := 1000, softTp := 20, step := 100, lvlTolerance := 5
    tradesPerLvl := 1, closeCycleOnProfit := 0, sectionsInHalfRange := 10, sectionsOffset := 5
    maxLotsAllowed := 1 / 10, maxSpread := 0, plr := 0 }
  outOfRange := fun _ => Doubles.intMin
  accepted := by decide +kernel

def risingTicks : List TickData :=
  [quote 1 1.0001 0, quote 1.0005 1.0006 1000, quote 1.001 1.00101 2000]

end Fxquant.Ladder
