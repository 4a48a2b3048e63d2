import Fxquant.Ladder.Exposure

/-!
# What the soft take profit realises

The two searches compare differently, buys by `get_profit(tick)` and sells by the distance of
their prices. All orders of a strategy are of one symbol and one volume, so both find the most
profitable of the orders that are far enough in profit, and the close that follows realises
what the tick promised.
-/

namespace Fxquant.Ladder

open FxEngine Doubles

namespace State

/-! ### The best of a search -/

theorem keepBetter_spec (best : Option (Ptr × ℚ)) (q : Ptr) (value : ℚ) :
    ∃ r v, keepBetter best q value = some (r, v) ∧ value ≤ v ∧
      (∀ r' v', best = some (r', v') → v' ≤ v) ∧ ((r = q ∧ v = value) ∨ best = some (r, v)) := by
  cases best with
  | none => exact ⟨q, value, rfl, le_rfl, fun _ _ h => (nomatch h), .inl ⟨rfl, rfl⟩⟩
  | some pair =>
    obtain ⟨r, v⟩ := pair
    rw [keepBetter]
    split
    · rename_i hLess
      refine ⟨q, value, rfl, le_rfl, ?_, .inl ⟨rfl, rfl⟩⟩
      rintro r' v' hBest
      cases hBest
      exact hLess.le
    · rename_i hMore
      refine ⟨r, v, rfl, not_lt.mp hMore, ?_, .inr rfl⟩
      rintro r' v' hBest
      cases hBest
      exact le_rfl

/-- The order that a search ends with has the greatest value of those it has passed. -/
theorem keepBetter_foldl_best (qualifies : Ptr → Bool) (value : Ptr → ℚ) {l : List Ptr}
    {best : Option (Ptr × ℚ)} {p : Ptr} {profit : ℚ}
    (h : l.foldl (fun best q => if qualifies q then keepBetter best q (value q) else best) best =
      some (p, profit)) (hBest : ∀ q v, best = some (q, v) → v = value q) :
    profit = value p ∧ (∀ q v, best = some (q, v) → v ≤ profit) ∧
      ∀ q ∈ l, qualifies q = true → value q ≤ profit := by
  induction l generalizing best with
  | nil =>
    refine ⟨hBest p profit h, fun q v hq => ?_, fun q hq => nomatch hq⟩
    cases hq.symm.trans h
    exact le_rfl
  | cons q l ih =>
    rw [List.foldl_cons] at h
    by_cases hq : qualifies q = true
    · obtain ⟨r, v, hKeep, hValue, hOld, hFrom⟩ := keepBetter_spec best q (value q)
      rw [if_pos hq, hKeep] at h
      obtain ⟨hProfit, hSeen, hRest⟩ := ih h fun r' v' hr => by
        cases hr
        rcases hFrom with ⟨rfl, rfl⟩ | hFrom
        · rfl
        · exact hBest _ _ hFrom
      have hv : v ≤ profit := hSeen r v rfl
      refine ⟨hProfit, fun r' v' hr => (hOld r' v' hr).trans hv, fun q' hq' hQual => ?_⟩
      rcases List.mem_cons.mp hq' with rfl | hq'
      · exact hValue.trans hv
      · exact hRest q' hq' hQual
    · rw [if_neg hq] at h
      obtain ⟨hProfit, hSeen, hRest⟩ := ih h hBest
      refine ⟨hProfit, hSeen, fun q' hq' hQual => ?_⟩
      rcases List.mem_cons.mp hq' with rfl | hq'
      · exact absurd hQual hq
      · exact hRest q' hq' hQual

/-! ### The orders that qualify -/

/-- Far enough in profit for the soft take profit of a direction. -/
def qualifies (env : Env) (tick : TickData) (type : OrderType) (o : Order) : Bool :=
  o.type == type && (if type = .buyOrder then
    decide (o.openPriceValue ≤ tick.bid - env.params.softTp * env.point)
  else decide (tick.ask + env.params.softTp * env.point ≤ o.openPriceValue))

theorem type_of_qualifies {env : Env} {tick : TickData} {type : OrderType} {o : Order}
    (h : qualifies env tick type o = true) : o.type = type := by
  rw [qualifies, Bool.and_eq_true, beq_iff_eq] at h
  exact h.1

theorem profitAt_buy {env : Env} {o : Order} (hType : o.type = .buyOrder)
    (hSymbol : o.symbol = env.symbol) (tick : TickData) :
    o.profitAt tick = (tick.bid - o.openPriceValue) / env.point * o.volume := by
  rw [Order.profitAt, hType, hSymbol]
  rfl

theorem profitAt_sell {env : Env} {o : Order} (hType : o.type = .sellOrder)
    (hSymbol : o.symbol = env.symbol) (tick : TickData) :
    o.profitAt tick = (o.openPriceValue - tick.ask) / env.point * o.volume := by
  rw [Order.profitAt, hType, hSymbol]
  rfl

theorem profitAt_of_qualifies {env : Env} {tick : TickData} {type : OrderType} {o : Order}
    (hType : type = .buyOrder ∨ type = .sellOrder) (hSymbol : o.symbol = env.symbol)
    (hVolume : 0 ≤ o.volume) (h : qualifies env tick type o = true) :
    env.params.softTp * o.volume ≤ o.profitAt tick := by
  rw [qualifies, Bool.and_eq_true, beq_iff_eq] at h
  obtain ⟨hSide, hPrice⟩ := h
  rcases hType with rfl | rfl
  · rw [if_pos rfl, decide_eq_true_eq] at hPrice
    rw [profitAt_buy hSide hSymbol]
    apply mul_le_mul_of_nonneg_right _ hVolume
    rw [le_div_iff₀ env.point_pos]
    exact le_sub_comm.mp hPrice
  · rw [if_neg (by decide), decide_eq_true_eq] at hPrice
    rw [profitAt_sell hSide hSymbol]
    apply mul_le_mul_of_nonneg_right _ hVolume
    rw [le_div_iff₀ env.point_pos]
    exact le_sub_iff_add_le'.mpr hPrice

/-- Both searches find the most profitable of the orders that qualify. -/
theorem found_best {env : Env} {s : State} {tick : TickData} {type : OrderType} {p : Ptr}
    (hType : type = .buyOrder ∨ type = .sellOrder)
    (hTerms : ∀ q ∈ s.engine.openedOrders, HasTerms env s (s.engine.heap q))
    (h : s.found env tick type = some p) :
    p ∈ s.engine.openedOrders ∧ qualifies env tick type (s.engine.heap p) = true ∧
      ∀ q ∈ s.engine.openedOrders, qualifies env tick type (s.engine.heap q) = true →
        (s.engine.heap q).profitAt tick ≤ (s.engine.heap p).profitAt tick := by
  rcases hType with rfl | rfl
  · obtain ⟨⟨r, profit⟩, hBest, rfl⟩ := Option.map_eq_some_iff.mp h
    obtain ⟨hMem, hQual⟩ := keepBetter_foldl_of_none
      (fun q => qualifies env tick .buyOrder (s.engine.heap q)) hBest
    obtain ⟨rfl, _, hMax⟩ := keepBetter_foldl_best
      (fun q => qualifies env tick .buyOrder (s.engine.heap q))
      (fun q => (s.engine.heap q).profitAt tick) hBest fun _ _ hNone => nomatch hNone
    exact ⟨hMem, hQual, hMax⟩
  · obtain ⟨⟨r, profit⟩, hBest, rfl⟩ := Option.map_eq_some_iff.mp h
    obtain ⟨hMem, hQual⟩ := keepBetter_foldl_of_none
      (fun q => qualifies env tick .sellOrder (s.engine.heap q)) hBest
    obtain ⟨rfl, _, hMax⟩ := keepBetter_foldl_best
      (fun q => qualifies env tick .sellOrder (s.engine.heap q))
      (fun q => (s.engine.heap q).openPriceValue - tick.ask) hBest fun _ _ hNone => nomatch hNone
    refine ⟨hMem, hQual, fun q hq hQ => ?_⟩
    obtain ⟨_, hSymbol, hVolume, _⟩ := hTerms q hq
    obtain ⟨_, hSymbol', hVolume', _⟩ := hTerms r hMem
    rw [profitAt_sell (type_of_qualifies hQ) hSymbol,
      profitAt_sell (type_of_qualifies hQual) hSymbol', hVolume, hVolume']
    apply mul_le_mul_of_nonneg_right _ env.volume_pos.le
    exact div_le_div_of_nonneg_right (hMax q hq hQ) env.point_pos.le

/-! ### What is closed -/

/-- From one state to the other exactly the orders of a list have been closed, one by one. -/
structure ClosesList (s s' : State) (l : List Ptr) : Prop where
  openedOrders : s'.engine.openedOrders = s.engine.openedOrders.filter fun p => decide (p ∉ l)
  closedOrders : s'.engine.closedOrders = s.engine.closedOrders ++ l
  others : ∀ p, p ∉ l → s'.engine.heap p = s.engine.heap p
  cycleProfit : s'.cycleProfit =
    s.cycleProfit + (l.map fun p => (s'.engine.heap p).profitValue).sum

/-- A closed order was the most profitable of the open ones that qualified, and has realised the
soft take profit. -/
def RealisesBest (env : Env) (s s' : State) (tick : TickData) (type : OrderType) (p : Ptr) : Prop :=
  p ∈ s.engine.openedOrders ∧ qualifies env tick type (s.engine.heap p) = true ∧
    ∃ profit, (s'.engine.heap p).profit = some profit ∧
      env.params.softTp * (s'.engine.heap p).volume ≤ profit ∧
      ∀ q ∈ s.engine.openedOrders, qualifies env tick type (s.engine.heap q) = true →
        (s.engine.heap q).profitAt tick ≤ profit

theorem ClosesList.refl (s : State) : ClosesList s s [] where
  openedOrders := by simp
  closedOrders := (List.append_nil _).symm
  others _ _ := rfl
  cycleProfit := (add_zero _).symm

theorem ClosesList.trans {s s' s'' : State} {l l' : List Ptr} (h : ClosesList s s' l)
    (h' : ClosesList s' s'' l') (hDisjoint : l.Disjoint l') : ClosesList s s'' (l ++ l') where
  openedOrders := by
    rw [h'.openedOrders, h.openedOrders, List.filter_filter]
    apply List.filter_congr
    intro p _
    simp [Bool.and_comm]
  closedOrders := by rw [h'.closedOrders, h.closedOrders, List.append_assoc]
  others p hp := by
    rw [List.mem_append, not_or] at hp
    rw [h'.others p hp.2, h.others p hp.1]
  cycleProfit := by
    have hKept : l.map (fun p => (s''.engine.heap p).profitValue) =
        l.map fun p => (s'.engine.heap p).profitValue :=
      List.map_congr_left fun p hp => by rw [h'.others p (hDisjoint hp)]
    rw [h'.cycleProfit, h.cycleProfit, List.map_append, List.sum_append, hKept, add_assoc]

/-- One direction: nothing is closed, or the order that the search has found. -/
theorem closesList_closeIfAllowed {env : Env} {s : State} (h : Inv env s) (tick : TickData)
    (changeLots : Order → ℚ) {type : OrderType} (hType : type = .buyOrder ∨ type = .sellOrder) :
    ∃ l : List Ptr, l.length ≤ 1 ∧
      ClosesList s (s.closeIfAllowed env tick changeLots (s.found env tick type)).1 l ∧
      ∀ p ∈ l, RealisesBest env s
        (s.closeIfAllowed env tick changeLots (s.found env tick type)).1 tick type p := by
  have hTerms : ∀ q ∈ s.engine.openedOrders, HasTerms env s (s.engine.heap q) := fun q hq =>
    h.orders q (h.book.allocated q (by simp [hq]))
  rcases closeIfAllowed_cases env tick changeLots h.book
      fun p hp => (found_best hType hTerms hp).1 with ⟨hEq, _⟩ | ⟨p, o, hp, hMem, _, hClose, hEq⟩
  · exact ⟨[], Nat.zero_le _, by rw [hEq]; exact .refl s, fun _ hp => nomatch hp⟩
  · obtain ⟨_, hQual, hMax⟩ := found_best hType hTerms hp
    obtain ⟨_, hSymbol, hVolume, _⟩ := hTerms p hMem
    have hNodup : s.engine.openedOrders.Nodup := (List.nodup_append'.mp h.book.nodup).1
    have hProfit : o.profit = some ((s.engine.heap p).profitAt tick) := Order.profit_of_closeAt hClose
    have hSame : o.volume = (s.engine.heap p).volume := by
      obtain ⟨_, rfl⟩ := Order.closeAt_eq_some_iff.mp hClose
      rfl
    refine ⟨[p], le_rfl, ?_, ?_⟩
    · rw [hEq]
      constructor
      case openedOrders =>
        change s.engine.openedOrders.erase p = _
        rw [hNodup.erase_eq_filter]
        apply List.filter_congr
        intro q _
        rw [Bool.eq_iff_iff]
        simp
      case closedOrders => rfl
      case others =>
        intro q hq
        exact Function.update_of_ne (fun hEq => hq (List.mem_singleton.mpr hEq)) _ _
      case cycleProfit => simp
    · intro q hq
      obtain rfl := List.mem_singleton.mp hq
      rw [hEq]
      refine ⟨hMem, hQual, (s.engine.heap q).profitAt tick, ?_, ?_, hMax⟩
      · simpa using hProfit
      · simp only [recordClosed_heap, Function.update_self]
        rw [hSame]
        exact profitAt_of_qualifies hType hSymbol (hVolume ▸ env.volume_pos.le) hQual

/-- Closing the buy first leaves the sells as they were. -/
theorem isSoftTpClosed_closes {env : Env} {s : State} (h : Inv env s) (tick : TickData)
    (hOn : ¬ (env.params.softTp ≤ 0 ∨ s.engine.openedOrders = [])) :
    ∃ buys sells : List Ptr, buys.length ≤ 1 ∧ sells.length ≤ 1 ∧
      ClosesList s (s.isSoftTpClosed env tick).1 (buys ++ sells) ∧
      (∀ p ∈ buys, RealisesBest env s (s.isSoftTpClosed env tick).1 tick .buyOrder p) ∧
      ∀ p ∈ sells, RealisesBest env s (s.isSoftTpClosed env tick).1 tick .sellOrder p := by
  rw [isSoftTpClosed_eq, if_neg hOn]
  have hBook := bookInv_softBuy env tick h.book
  have hInv : Inv env (s.softBuy env tick) := h.of_onlyCloses (onlyCloses_softBuy env tick h.book) hBook
  obtain ⟨buys, hBuys, hClosesBuys, hBestBuys⟩ :=
    closesList_closeIfAllowed h tick (fun o => -o.volume) (.inl rfl)
  obtain ⟨sells, hSells, hClosesSells, hBestSells⟩ :=
    closesList_closeIfAllowed hInv tick (fun o => o.volume) (.inr rfl)
  change ClosesList s (s.softBuy env tick) buys at hClosesBuys
  change ClosesList (s.softBuy env tick) ((s.softBuy env tick).softSell env tick) sells at hClosesSells
  have hOpened : ∀ p, p ∈ (s.softBuy env tick).engine.openedOrders ↔
      p ∈ s.engine.openedOrders ∧ p ∉ buys := fun p => by
    rw [hClosesBuys.openedOrders, List.mem_filter, decide_eq_true_eq]
  have hOther : ∀ p ∈ sells, p ∉ buys := fun p hp => ((hOpened p).mp (hBestSells p hp).1).2
  have hNotBuy : ∀ q, qualifies env tick .sellOrder (s.engine.heap q) = true → q ∉ buys := by
    intro q hQual hq
    have hType := type_of_qualifies (hBestBuys q hq).2.1
    rw [type_of_qualifies hQual] at hType
    cases hType
  refine ⟨buys, sells, hBuys, hSells, hClosesBuys.trans hClosesSells ?_, ?_, ?_⟩
  · exact fun p hp hp' => hOther p hp' hp
  · intro p hp
    obtain ⟨hMem, hQual, profit, hProfit, hLeast, hMax⟩ := hBestBuys p hp
    have hKept := hClosesSells.others p fun hp' => hOther p hp' hp
    exact ⟨hMem, hQual, profit, by rw [hKept]; exact hProfit, by rw [hKept]; exact hLeast, hMax⟩
  · intro p hp
    obtain ⟨hMem, hQual, profit, hProfit, hLeast, hMax⟩ := hBestSells p hp
    rw [hClosesBuys.others p (hOther p hp)] at hQual
    refine ⟨((hOpened p).mp hMem).1, hQual, profit, hProfit, hLeast, fun q hq hQ => ?_⟩
    have hKept := hClosesBuys.others q (hNotBuy q hQ)
    have hBest := hMax q ((hOpened q).mpr ⟨hq, hNotBuy q hQ⟩) (by rwa [hKept])
    rwa [hKept] at hBest

end State

/-- Each call of `is_soft_tp_closed` in a tick closes at most one buy and one sell, each the most
profitable of its direction that qualifies, and counts what they have realised. -/
theorem soft_take_profit_realises (env : Env) (autoOrderId : ℕ) (ticks : List TickData)
    (tick : TickData) (hTp : 0 < env.params.softTp) :
    let s := (after env autoOrderId ticks).settled env tick
    let s' := (s.isSoftTpClosed env tick).1
    ∃ buys sells : List Ptr, buys.length ≤ 1 ∧ sells.length ≤ 1 ∧
      State.ClosesList s s' (buys ++ sells) ∧
      (∀ p ∈ buys, State.RealisesBest env s s' tick .buyOrder p) ∧
      ∀ p ∈ sells, State.RealisesBest env s s' tick .sellOrder p := by
  have hSettled := (inv_after env autoOrderId ticks).settled tick
  intro s s'
  by_cases hEmpty : s.engine.openedOrders = []
  · have hSame : s' = s := by
      change (s.isSoftTpClosed env tick).1 = s
      rw [State.isSoftTpClosed_eq, if_pos (.inr hEmpty)]
    rw [hSame]
    exact ⟨[], [], Nat.zero_le _, Nat.zero_le _, .refl s, nofun, nofun⟩
  · exact State.isSoftTpClosed_closes hSettled tick (not_or.mpr ⟨not_le.mpr hTp, hEmpty⟩)

theorem third_rising_tick_realises :
    let s := (after tenthOfALot 0 (risingTicks.take 2)).settled tenthOfALot
      (quote 1.001 1.00101 2000)
    let s' := (s.isSoftTpClosed tenthOfALot (quote 1.001 1.00101 2000)).1
    ∃ buys sells : List Ptr, buys.length ≤ 1 ∧ sells.length ≤ 1 ∧
      State.ClosesList s s' (buys ++ sells) ∧
      (∀ p ∈ buys,
        State.RealisesBest tenthOfALot s s' (quote 1.001 1.00101 2000) .buyOrder p) ∧
      ∀ p ∈ sells,
        State.RealisesBest tenthOfALot s s' (quote 1.001 1.00101 2000) .sellOrder p :=
  soft_take_profit_realises tenthOfALot 0 (risingTicks.take 2) (quote 1.001 1.00101 2000)
    (by decide +kernel)

/-! ### In doubles -/

/-- `find_profitable_buy` in doubles. -/
def State.roundedFindProfitableBuy (env : Env) (s : State) (tick : TickData) : Option Ptr :=
  let profitablePrice := rounded (tick.bid - rounded (env.params.softTp * env.roundedPoint))
  let best := s.engine.openedOrders.foldl (fun best optr =>
    let o := s.engine.heap optr
    if o.type == .buyOrder && decide (o.openPriceValue ≤ profitablePrice) then
      keepBetter best optr (o.roundedProfitAt tick)
    else best) none
  best.map Prod.fst

def softTwenty : Env where
  symbol := .eurusd
  params := {
    volume := rounded 0.1, sl := 1000, tp := 1000, softTp := 20, step := 100, lvlTolerance := 100
    tradesPerLvl := 1, closeCycleOnProfit := 0, sectionsInHalfRange := 100, sectionsOffset := 0
    maxLotsAllowed := 0, maxSpread := 0, plr := 0 }
  outOfRange := fun _ => Doubles.intMin
  accepted := by decide +kernel

/-- A buy at 1.0000 is taken for one that earns twenty points at 1.0002, and realises less. -/
theorem twenty_points_fall_short :
    let tick := quote 1.0002 1.0003 1000
    let s := (after softTwenty 0 [quote 0.9999 1.0000 0]).settled softTwenty tick
    let s' := (s.closeIfAllowed softTwenty tick (fun o => -o.volume)
      (s.roundedFindProfitableBuy softTwenty tick)).1
    s.engine.closedOrders = [] ∧
      ¬ ∀ p ∈ s'.engine.closedOrders, ∀ profit ∈ (s'.engine.heap p).roundedProfit,
        rounded (softTwenty.params.softTp * (s'.engine.heap p).volume) ≤ profit := by
  decide +kernel

end Fxquant.Ladder
