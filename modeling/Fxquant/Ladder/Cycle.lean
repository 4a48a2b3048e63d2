import Fxquant.Engine.Worth
import Fxquant.Ladder.Reachable

/-!
# Completed cycles earn their target

A cycle ends when `is_close_on_profit` answers true. The counter `cycle_profit_` is what the
orders closed since the last such tick have realised, and the equity of the book is what
`close_all_trades` then realises at the same tick.
-/

namespace Fxquant

open FxEngine

namespace Ladder

def closesCycle (env : Env) (s : State) (tick : TickData) : Bool :=
  (s.checked env tick).isCloseOnProfit env tick

theorem settled_of_closesCycle {env : Env} {s : State} {tick : TickData}
    (h : closesCycle env s tick = true) :
    s.settled env tick = { s.checked env tick with
      engine := (s.checked env tick).engine.closeAllTrades tick
      cycleProfit := 0 } := if_pos h

theorem settled_of_not_closesCycle {env : Env} {s : State} {tick : TickData}
    (h : closesCycle env s tick = false) : s.settled env tick = s.checked env tick :=
  if_neg (Bool.eq_false_iff.mp h)

/-- The length of the closed list when a cycle was last closed, 0 before any was. -/
def noteCycle (env : Env) (s : State × ℕ) (tick : TickData) : ℕ :=
  if closesCycle env s.1 tick then (s.1.settled env tick).engine.closedOrders.length else s.2

def noteTick (env : Env) (s : State × ℕ) (tick : TickData) : State × ℕ :=
  (s.1.onTick env tick, noteCycle env s tick)

def cycleStart (env : Env) (autoOrderId : ℕ) (ticks : List TickData) : ℕ :=
  (Runs.run (noteTick env) (start autoOrderId, 0) ticks).2

/-- The counter of the cycle is right: it is what was realised from an entry of the closed list on. -/
structure Counts (s : State) (entry : ℕ) : Prop where
  le_length : entry ≤ s.engine.closedOrders.length
  cycleProfit : s.cycleProfit = s.engine.realised entry

namespace Counts

variable {s : State} {entry : ℕ}

theorem recordClosed (h : Counts s entry) {e : FxEngine} {flight : List Ptr} {p : Ptr} {o : Order}
    (hInv : e.BookInv (p :: flight)) (hClosed : e.closedOrders = s.engine.closedOrders)
    (hHeap : e.heap = s.engine.heap) :
    Counts { s with engine := e.recordClosed p o, cycleProfit := s.cycleProfit + o.profitValue } entry where
  le_length := by
    change entry ≤ (e.recordClosed p o).closedOrders.length
    rw [recordClosed_closedOrders, hClosed, List.length_append]
    exact h.le_length.trans (Nat.le_add_right _ _)
  cycleProfit := by
    change s.cycleProfit + o.profitValue = (e.recordClosed p o).realised entry
    rw [hInv.realised_recordClosed (hClosed ▸ h.le_length), h.cycleProfit,
      realised_congr hClosed fun q _ => congrFun hHeap q]

theorem sendIf (h : Counts s entry) (hInv : s.engine.BookInv []) (env : Env) (tick : TickData)
    (type : OrderType) (b : Bool) : Counts (s.sendIf env tick type b) entry := by
  have hCycle : (s.sendIf env tick type b).cycleProfit = s.cycleProfit := by
    rw [State.sendIf]
    split <;> rfl
  have hClosed : (s.sendIf env tick type b).engine.closedOrders = s.engine.closedOrders := by
    rcases sendIf_cases env s tick type b with ⟨_, n, hEngine⟩ | ⟨o, _, _, hEngine⟩
    · rw [hEngine]
    · rw [hEngine]
      rfl
  refine ⟨hClosed ▸ h.le_length, ?_⟩
  rw [hCycle, h.cycleProfit]
  refine (realised_congr hClosed fun p hp => ?_).symm
  rcases sendIf_cases env s tick type b with ⟨_, n, hEngine⟩ | ⟨o, _, _, hEngine⟩
  · rw [hEngine]
  · rw [hEngine, place_heap_of_lt _ (hInv.allocated p (by simp [hp]))]

theorem opened (h : Counts s entry) (hInv : s.engine.BookInv []) (env : Env) (tick : TickData) :
    Counts (s.opened env tick) entry := by
  have hInit : Counts (s.initializeCompute env tick) entry :=
    ⟨by simpa using h.le_length, by simpa using h.cycleProfit⟩
  have hBook : (s.initializeCompute env tick).engine.BookInv [] := by simpa using hInv
  rw [State.opened, State.tryOpeningOrders_eq]
  exact (hInit.sendIf hBook _ _ _ _).sendIf (State.bookInv_sendIf (.inl rfl) hBook) _ _ _ _

theorem checkOrdersClosing (h : Counts s entry) (hInv : s.engine.BookInv []) (tick : TickData) :
    Counts (s.checkOrdersClosing tick).1 entry := by
  cases hClosing : s.closingOrders tick with
  | nil => rwa [State.checkOrdersClosing_of_nil hClosing]
  | cons p rest =>
    obtain ⟨o, _, hEq⟩ := State.checkOrdersClosing_of_cons hInv hClosing
    have hExtracted := State.bookInv_extracted tick hInv
    rw [hClosing] at hExtracted
    rw [hEq]
    exact h.recordClosed hExtracted rfl rfl

theorem closeIfAllowed (h : Counts s entry) (hInv : s.engine.BookInv []) (env : Env)
    (tick : TickData) (changeLots : Order → ℚ) {found : Option Ptr}
    (hFound : ∀ p, found = some p → p ∈ s.engine.openedOrders) :
    Counts (s.closeIfAllowed env tick changeLots found).1 entry := by
  rcases State.closeIfAllowed_cases env tick changeLots hInv hFound with
    ⟨hEq, _⟩ | ⟨p, o, _, hMem, _, _, hEq⟩
  · rwa [hEq]
  · rw [hEq]
    exact h.recordClosed (hInv.takeOne hMem) rfl rfl

theorem isSoftTpClosed (h : Counts s entry) (hInv : s.engine.BookInv []) (env : Env)
    (tick : TickData) : Counts (s.isSoftTpClosed env tick).1 entry := by
  rw [State.isSoftTpClosed_eq]
  split
  · exact h
  · have hBuy : Counts (s.softBuy env tick) entry :=
      h.closeIfAllowed hInv env tick _ fun _ hp => (State.findProfitableBuy_spec hp).1
    exact hBuy.closeIfAllowed (State.bookInv_softBuy env tick hInv) env tick _
      fun _ hp => (State.findProfitableSell_spec hp).1

/-- A tick counts what it realises. When it closes the cycle, the counter starts again. -/
theorem onTick (h : Counts s entry) (hInv : s.engine.BookInv []) (env : Env) (tick : TickData) :
    Counts (s.onTick env tick) (noteCycle env (s, entry) tick) := by
  have hChecked : Counts (s.checked env tick) entry :=
    (h.opened hInv env tick).checkOrdersClosing (State.bookInv_opened env tick hInv) tick
  have hSettled : Counts (s.settled env tick) (noteCycle env (s, entry) tick) := by
    rw [noteCycle]
    cases hCloses : closesCycle env s tick with
    | false => rwa [settled_of_not_closesCycle hCloses]
    | true =>
      rw [if_pos rfl, settled_of_closesCycle hCloses]
      refine ⟨le_rfl, ?_⟩
      rw [realised, List.drop_length]
      rfl
  exact hSettled.isSoftTpClosed (State.bookInv_settled env tick hInv) env tick

end Counts

theorem counts_after (env : Env) (autoOrderId : ℕ) (ticks : List TickData) :
    Counts (after env autoOrderId ticks) (cycleStart env autoOrderId ticks) := by
  have hRun : (Runs.run (noteTick env) (start autoOrderId, 0) ticks).1.engine.BookInv [] ∧
      Counts (Runs.run (noteTick env) (start autoOrderId, 0) ticks).1
        (cycleStart env autoOrderId ticks) := by
    apply Runs.run_invariant fun s : State × ℕ => s.1.engine.BookInv [] ∧ Counts s.1 s.2
    · exact fun s tick h => ⟨State.bookInv_onTick env tick h.1, h.2.onTick h.1 env tick⟩
    · exact ⟨bookInv_empty autoOrderId, le_rfl, rfl⟩
  have hState : (Runs.run (noteTick env) (start autoOrderId, 0) ticks).1 = after env autoOrderId ticks :=
    Runs.run_fst (noteCycle env) (start autoOrderId) 0 ticks
  rw [← hState]
  exact hRun.2

/-- When a tick closes a cycle, the orders closed since the last cycle was closed, those of the
tick included, have realised the target, and no order is open. -/
theorem cycle_earns_target (env : Env) (autoOrderId : ℕ) (ticks : List TickData) (tick : TickData)
    (hTarget : 0 < env.params.closeCycleOnProfit)
    (hCloses : closesCycle env (after env autoOrderId ticks) tick = true) :
    let e := (after env autoOrderId (ticks ++ [tick])).engine
    e.openedOrders = [] ∧
      ∃ profits : List ℚ, (e.closedOrders.drop (cycleStart env autoOrderId ticks)).map
          (fun p => (e.heap p).profit) = profits.map some ∧
        env.params.closeCycleOnProfit ≤ profits.sum := by
  have hInv := (inv_after env autoOrderId ticks).book
  have hChecked : Counts ((after env autoOrderId ticks).checked env tick) (cycleStart env autoOrderId ticks) :=
    ((counts_after env autoOrderId ticks).opened hInv env tick).checkOrdersClosing
      (State.bookInv_opened env tick hInv) tick
  have hBook := State.bookInv_checked env tick hInv
  obtain ⟨hAfter, hOpened, _, _⟩ := hBook.closeAllTrades tick
  have hEngine : (after env autoOrderId (ticks ++ [tick])).engine =
      ((after env autoOrderId ticks).checked env tick).engine.closeAllTrades tick := by
    have hSettled := settled_of_closesCycle hCloses
    rw [after_concat, State.onTick, State.isSoftTpClosed_eq, hSettled, if_pos (.inr hOpened)]
  intro e
  have hProfit : env.params.closeCycleOnProfit ≤ e.realised (cycleStart env autoOrderId ticks) := by
    rw [closesCycle, State.isCloseOnProfit, if_neg hTarget.ne', Bool.and_eq_true, decide_eq_true_eq,
      decide_eq_true_eq, hChecked.cycleProfit] at hCloses
    change _ ≤ (after env autoOrderId (ticks ++ [tick])).engine.realised _
    rw [hEngine, hBook.realised_closeAllTrades tick hChecked.le_length]
    exact hCloses.2
  refine ⟨by rw [← hOpened, ← hEngine], _, profits_of_isClosed fun p hp => ?_, hProfit⟩
  have hMem := List.mem_of_mem_drop hp
  change p ∈ (after env autoOrderId (ticks ++ [tick])).engine.closedOrders at hMem
  change ((after env autoOrderId (ticks ++ [tick])).engine.heap p).isClosed = true
  rw [hEngine] at hMem ⊢
  exact (hAfter.isClosed p hMem).2

def targetThree : Env where
  symbol := .eurusd
  params := {
    volume := 1 / 10, sl := 1000, tp := 50, softTp := 0, step := 100, lvlTolerance := 5
    tradesPerLvl := 1, closeCycleOnProfit := 3, sectionsInHalfRange := 100, sectionsOffset := 0
    maxLotsAllowed := 0, maxSpread := 0, plr := 0 }
  outOfRange := fun _ => Doubles.intMin
  accepted := by decide +kernel

theorem return_earns_three :
    let e := (after targetThree 0 [quote 1.0000 1.0001 0, quote 1.0008 1.0009 1000,
      quote 1.0000 1.0001 2000]).engine
    e.openedOrders = [] ∧ ∃ profits : List ℚ,
      (e.closedOrders.drop (cycleStart targetThree 0 [quote 1.0000 1.0001 0,
        quote 1.0008 1.0009 1000])).map (fun p => (e.heap p).profit) =
          profits.map some ∧ 3 ≤ profits.sum :=
  cycle_earns_target targetThree 0 [quote 1.0000 1.0001 0, quote 1.0008 1.0009 1000]
    (quote 1.0000 1.0001 2000) (by decide +kernel) (by decide +kernel)

end Ladder

end Fxquant
