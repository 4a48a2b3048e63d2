import Fxquant.Ladder.Cycle

/-!
# The figures of the strategy and those of the engine

`compute_.initialize` sums the profits up in loops of its own: over the open orders that have
their custom data, and over the closed ones. In a reachable state every order has its data and
every closed order its profit, so the sums are those of `get_equity` and of the statistics.
-/

namespace Fxquant.Ladder

open FxEngine

namespace State

theorem setProfitsFrom_equity (tick : TickData) {s : State} {l : List Ptr}
    (h : ∀ p ∈ l, (s.engine.heap p).customData.isSome = true) :
    (setProfitsFrom tick s l).compute.equity =
      s.compute.equity + (l.map fun p => (s.engine.heap p).profitAt tick).sum := by
  induction l generalizing s with
  | nil => simp [setProfitsFrom]
  | cons p l ih =>
    obtain ⟨cd, hData⟩ := Option.isSome_iff_exists.mp (h p List.mem_cons_self)
    rw [setProfitsFrom, hData]
    dsimp only
    rw [ih (by exact fun q hq => h q (List.mem_cons_of_mem _ hq)), List.map_cons, List.sum_cons, ← add_assoc]

theorem initializeCompute_profits (env : Env) {s : State} (tick : TickData)
    (h : ∀ p ∈ s.engine.openedOrders, (s.engine.heap p).customData.isSome = true) :
    (s.initializeCompute env tick).compute.equity = s.engine.getEquity tick ∧
      (s.initializeCompute env tick).compute.closeProfit =
        s.engine.calcClosedTradesStats.closeProfit := by
  obtain ⟨hEquity, hClose⟩ := Compute.loopOpenedOrders_profits s.engine
    ((((((s.compute.resetValues tick).setOpenTradesMinmaxAndRange env s.engine tick).setTopHalf
      ).setSectionIAmIn env).setDynamicSectionRisk env).setNearestLevel env)
  have hSum := setProfitsFrom_equity tick (s := { s with compute := s.figures env tick }) h
  obtain ⟨hEngine, _, _, ⟨equity, hCompute⟩, _⟩ :=
    setProfitsFrom_frame tick { s with compute := s.figures env tick } s.engine.openedOrders
  rw [initializeCompute_loops]
  constructor
  · rw [getEquity_eq, ← zero_add (List.sum _)]
    exact hSum.trans (congrArg (· + _) hEquity)
  · have hFold : ((setProfitsFrom tick { s with compute := s.figures env tick }
        s.engine.openedOrders).compute.loopClosedOrders s.engine).closeProfit =
          s.engine.closedOrders.foldl
            (fun closeProfit p => closeProfit + (s.engine.heap p).profitValue) 0 := by
      rw [hCompute]
      exact congrArg (List.foldl _ · _) hClose
    rw [hEngine]
    refine hFold.trans ?_
    rw [(summarises_profitValues s.engine).closeProfit, List.sum_eq_foldl, List.foldl_map]

theorem initializeCompute_trades (env : Env) (s : State) (tick : TickData) :
    (s.initializeCompute env tick).compute.openBuyTrades +
        (s.initializeCompute env tick).compute.openSellTrades = s.engine.openedOrders.length := by
  obtain ⟨_, _, _, ⟨_, _, hCompute⟩, _⟩ := initializeCompute_frame env s tick
  rw [hCompute]
  exact Compute.loopOpenedOrders_trades _ _ ⟨rfl, rfl⟩

end State

/-- When the figures of a tick have been set, they are those of `get_equity` and of the statistics
of the trades with that tick as the latest one. -/
theorem figures_agree_with_engine (env : Env) (autoOrderId : ℕ) (ticks : List TickData)
    (tick : TickData) :
    let s := (after env autoOrderId ticks).initializeCompute env tick
    let e := { s.engine with latestTick := some tick }
    s.compute.equity = e.getEquity tick ∧
      s.compute.equity = e.calcOpenTradesStats.openedProfit ∧
      s.compute.closeProfit = e.calcClosedTradesStats.closeProfit ∧
      s.compute.openBuyTrades + s.compute.openSellTrades =
        e.calcOpenTradesStats.openedWins + e.calcOpenTradesStats.openedLoses ∧
      s.compute.lotsExposure =
        (e.openedOrders.map fun p => Compute.signedVolume (e.heap p)).sum := by
  have hInv := inv_after env autoOrderId ticks
  have hData : ∀ p ∈ (after env autoOrderId ticks).engine.openedOrders,
      ((after env autoOrderId ticks).engine.heap p).customData.isSome = true := by
    intro p hp
    obtain ⟨_, _, _, _, cd, _, _, hData, _⟩ := hInv.orders p (hInv.book.allocated p (by simp [hp]))
    exact Option.isSome_of_eq_some hData
  obtain ⟨hEquity, hClose⟩ := State.initializeCompute_profits env tick hData
  intro s e
  obtain ⟨hProfit, hTrades⟩ := calcOpenTradesStats_spec e
  have hEngine : e = { (after env autoOrderId ticks).engine with latestTick := some tick } :=
    congrArg (fun e : FxEngine => { e with latestTick := some tick })
      (State.initializeCompute_engine env _ tick)
  have hExposure := (State.initializeCompute_compute env (after env autoOrderId ticks) tick).2.1
  have hCount := State.initializeCompute_trades env (after env autoOrderId ticks) tick
  rw [hEngine] at hProfit hTrades ⊢
  refine ⟨hEquity, ?_, hClose, ?_, hExposure⟩
  · exact (hEquity.trans (getEquity_eq _ _)).trans hProfit.symm
  · exact hCount.trans hTrades.symm

end Fxquant.Ladder
