import Fxquant.Engine.Worth
import Fxquant.Ladder.NoOrderLost

/-!
# Where the money of a run comes from

Between two ticks the book of a ladder strategy gains what the prices move on the orders it
holds. A tick takes the spread for each order it opens and drops the profits of the orders it
loses; the closes of a tick change nothing.
-/

namespace Fxquant.Ladder

open FxEngine

def orderCount (s : State) (type : OrderType) : ℕ :=
  s.engine.openedOrders.countP fun p => (s.engine.heap p).type = type

/-- What the open orders gain from one tick to another: buys are valued at the bid, sells at
the ask. -/
def marketGain (env : Env) (s : State) (prev tick : TickData) : ℚ :=
  (orderCount s .buyOrder * (tick.bid - prev.bid) - orderCount s .sellOrder * (tick.ask - prev.ask)) /
    env.point * env.params.volume

def openedCount (env : Env) (s : State) (tick : TickData) : ℕ :=
  (if opens env s tick .buyOrder then 1 else 0) + if opens env s tick .sellOrder then 1 else 0

def spreadCost (env : Env) (s : State) (tick : TickData) : ℚ :=
  openedCount env s tick * (tick.spread / env.point * env.params.volume)

/-- The orders that are ready to close, but for the one that is closed. -/
def lostOrders (env : Env) (s : State) (tick : TickData) : List Ptr :=
  ((s.opened env tick).closingOrders tick).tail

def lostProfit (env : Env) (s : State) (tick : TickData) : ℚ :=
  (s.opened env tick).engine.unrealised tick (lostOrders env s tick)

/-! ### Between two ticks -/

theorem profitAt_sub {env : Env} {s : State} {o : Order} (h : HasTerms env s o) (prev tick : TickData) :
    o.profitAt tick - o.profitAt prev =
      ((if o.type = .buyOrder then 1 else 0) * (tick.bid - prev.bid) -
        (if o.type = .sellOrder then 1 else 0) * (tick.ask - prev.ask)) / env.point *
          env.params.volume := by
  obtain ⟨hType, hSymbol, hVolume, _⟩ := h
  rw [Order.profitAt, Order.profitAt, hSymbol, hVolume, Env.point]
  rcases hType with hType | hType
  · simp only [hType, OrderType.isBuy, if_true, reduceCtorEq, if_false]
    ring
  · simp only [hType, OrderType.isBuy, if_true, reduceCtorEq, if_false, Bool.false_eq_true]
    ring

theorem worth_between {env : Env} {s : State} (h : Inv env s) (prev tick : TickData) :
    s.engine.worth [] tick = s.engine.worth [] prev + marketGain env s prev tick := by
  have hGain : ∀ l : List Ptr, (∀ p ∈ l, p < s.engine.nextPtr) →
      s.engine.unrealised tick l = s.engine.unrealised prev l +
        ((l.countP fun p => (s.engine.heap p).type = .buyOrder) * (tick.bid - prev.bid) -
          (l.countP fun p => (s.engine.heap p).type = .sellOrder) * (tick.ask - prev.ask)) /
            env.point * env.params.volume := by
    intro l
    induction l with
    | nil =>
      intro _
      simp
    | cons p l ih =>
      intro hl
      have hRest := ih fun q hq => hl q (List.mem_cons_of_mem _ hq)
      have hHead := profitAt_sub (h.orders p (hl p List.mem_cons_self)) prev tick
      rw [unrealised_cons, unrealised_cons, hRest, eq_add_of_sub_eq hHead, List.countP_cons,
        List.countP_cons]
      simp only [decide_eq_true_eq]
      push_cast
      ring
  have hAll := hGain s.engine.openedOrders fun p hp => h.book.allocated p (by simp [hp])
  rw [worth, worth, List.nil_append, hAll, marketGain, orderCount, orderCount, add_assoc]

/-! ### What a tick does -/

theorem profitAt_newOrder {env : Env} {tick : TickData} {type : OrderType}
    (hType : type = .buyOrder ∨ type = .sellOrder) {o : Order} (h : newOrder env tick type = some o)
    (id : ℕ) (data : Option Ptr) :
    Order.profitAt { o with id := id, customData := data } tick =
      -(tick.spread / env.point * env.params.volume) := by
  obtain ⟨hTypeEq, hSymbol, hVolume, _, _, hPrice⟩ := newOrder_spec hType h
  rw [Order.profitAt, Order.openPriceValue, hTypeEq, hSymbol, hVolume, hPrice, Env.point,
    TickData.spread]
  rcases hType with rfl | rfl
  · simp only [OrderType.isBuy, if_true, State.sidePrice_buy, Option.getD_some]
    ring
  · simp only [OrderType.isBuy, Bool.false_eq_true, if_false, State.sidePrice_sell, Option.getD_some]
    ring

theorem worth_sendIf {env : Env} {s : State} {tick : TickData} {type : OrderType}
    (hType : type = .buyOrder ∨ type = .sellOrder) (h : s.engine.BookInv []) (b : Bool) :
    (s.sendIf env tick type b).engine.worth [] tick = s.engine.worth [] tick -
      (if sends env tick type b then 1 else 0) * (tick.spread / env.point * env.params.volume) := by
  rcases sendIf_cases env s tick type b with ⟨hSends, n, hEngine⟩ | ⟨o, hSends, hNew, hEngine⟩
  · rw [hEngine, hSends, if_neg Bool.false_ne_true, zero_mul, sub_zero]
    rfl
  · have hClosed : (s.sendIf env tick type b).engine.closedOrders = s.engine.closedOrders := by
      rw [hEngine]
      rfl
    have hPlaced := h.worth_of_new (congrArg FxEngine.heap hEngine)
      (congrArg FxEngine.openedOrders hEngine) hClosed tick
    rw [hPlaced, hSends, if_pos rfl, one_mul, profitAt_newOrder hType hNew, sub_eq_add_neg]

theorem worth_opened (env : Env) {s : State} (tick : TickData) (h : s.engine.BookInv []) :
    (s.opened env tick).engine.worth [] tick = s.engine.worth [] tick - spreadCost env s tick := by
  have hInit : (s.initializeCompute env tick).engine.BookInv [] := by simpa using h
  have hBuy : ((s.initializeCompute env tick).sendIf env tick .buyOrder
      (asks env s tick .buyOrder)).engine.BookInv [] := State.bookInv_sendIf (.inl rfl) hInit
  rw [opened_eq, worth_sendIf (.inr rfl) hBuy, worth_sendIf (.inl rfl) hInit,
    State.initializeCompute_engine, ← opens, ← opens, spreadCost, openedCount]
  push_cast
  ring

theorem worth_checkOrdersClosing {s : State} (tick : TickData) (h : s.engine.BookInv []) :
    (s.checkOrdersClosing tick).1.engine.worth [] tick =
      s.engine.worth [] tick - s.engine.unrealised tick (s.closingOrders tick).tail := by
  cases hClosing : s.closingOrders tick with
  | nil => simp [State.checkOrdersClosing_of_nil hClosing]
  | cons p rest =>
    obtain ⟨o, hClose, hEq⟩ := State.checkOrdersClosing_of_cons h hClosing
    have hPerm : (s.closingOrders tick ++ (s.extracted tick).openedOrders).Perm
        s.engine.openedOrders := List.filter_append_perm _ _
    have hExtracted := State.bookInv_extracted tick h
    rw [hClosing] at hPerm hExtracted
    have hTaken : (s.extracted tick).worth (p :: rest) tick = s.engine.worth [] tick :=
      worth_takeOut s.engine hPerm tick
    have hFresh : p ∉ rest := fun hp =>
      (List.nodup_cons.mp hExtracted.nodup).1 (by simp [hp])
    have hRest : ((s.extracted tick).recordClosed p o).unrealised tick rest =
        s.engine.unrealised tick rest :=
      congrArg List.sum (map_recordClosed (s.extracted tick) (fun _ q => q.profitAt tick) o hFresh)
    rw [hEq, worth_forget _ rest, hExtracted.worth_recordClosed hClose, hTaken, hRest, List.tail_cons]

theorem worth_closeCycle (env : Env) {s : State} (tick : TickData) (h : s.engine.BookInv []) :
    (s.closeCycle env tick).engine.worth [] tick = s.engine.worth [] tick := by
  rw [State.closeCycle]
  split
  · exact h.worth_closeAllTrades tick
  · rfl

theorem worth_closeIfAllowed (env : Env) {s : State} (tick : TickData) (changeLots : Order → ℚ)
    {found : Option Ptr} (hInv : s.engine.BookInv [])
    (hFound : ∀ p, found = some p → p ∈ s.engine.openedOrders) :
    (s.closeIfAllowed env tick changeLots found).1.engine.worth [] tick = s.engine.worth [] tick := by
  rcases State.closeIfAllowed_cases env tick changeLots hInv hFound with
    ⟨hEq, _⟩ | ⟨p, o, _, hMem, _, hClose, hEq⟩
  · rw [hEq]
  · have hTaken : worth { s.engine with openedOrders := s.engine.openedOrders.erase p } [p] tick =
        s.engine.worth [] tick := worth_takeOut s.engine (List.perm_cons_erase hMem).symm tick
    rw [hEq, (hInv.takeOne hMem).worth_recordClosed hClose, hTaken]

theorem worth_isSoftTpClosed (env : Env) {s : State} (tick : TickData) (h : s.engine.BookInv []) :
    (s.isSoftTpClosed env tick).1.engine.worth [] tick = s.engine.worth [] tick := by
  have hBuy : (s.softBuy env tick).engine.worth [] tick = s.engine.worth [] tick :=
    worth_closeIfAllowed env tick _ h fun _ hp => (State.findProfitableBuy_spec hp).1
  rw [State.isSoftTpClosed_eq]
  split
  · rfl
  · rw [← hBuy]
    exact worth_closeIfAllowed env tick _ (State.bookInv_softBuy env tick h)
      fun _ hp => (State.findProfitableSell_spec hp).1

/-- A tick changes the worth of the book by the spreads of the orders it opens and the profits
of those it loses, and by nothing else. -/
theorem worth_onTick (env : Env) {s : State} (tick : TickData) (h : s.engine.BookInv []) :
    (s.onTick env tick).engine.worth [] tick =
      s.engine.worth [] tick - spreadCost env s tick - lostProfit env s tick := by
  have hOpened := worth_opened env tick h
  have hChecked := worth_checkOrdersClosing tick (State.bookInv_opened env tick h)
  have hSettled := worth_closeCycle env tick (State.bookInv_checked env tick h)
  have hSoft := worth_isSoftTpClosed env tick (State.bookInv_settled env tick h)
  rw [State.onTick, hSoft, State.settled, hSettled, State.checked, hChecked, hOpened, lostProfit,
    lostOrders]

/-! ### Runs -/

/-- A strategy with the tick it has seen last. -/
def follow (env : Env) (s : State × TickData) (tick : TickData) : State × TickData :=
  (s.1.onTick env tick, tick)

theorem run_follow_snd (env : Env) (s : State) (prev : TickData) (ticks : List TickData) :
    (Runs.run (follow env) (s, prev) ticks).2 = ticks.getLastD prev := by
  induction ticks generalizing s prev with
  | nil => rfl
  | cons tick ticks ih =>
    rw [Runs.run_cons, follow, ih, List.getLastD_cons]

/-- After any ticks, the profit reported of the closed orders and the equity of the open ones at
the last tick add up to what the prices moved on the orders held from tick to tick, less the
spreads of the orders opened, less the profits of the orders lost. -/
theorem self_financing (env : Env) (autoOrderId : ℕ) (prev : TickData) (ticks : List TickData) :
    (after env autoOrderId ticks).engine.calcClosedTradesStats.closeProfit +
        (after env autoOrderId ticks).engine.getEquity (ticks.getLastD prev) =
      Runs.total (follow env)
        (fun s tick => marketGain env s.1 s.2 tick - spreadCost env s.1 tick -
          lostProfit env s.1 tick) (start autoOrderId, prev) ticks := by
  have hState : (Runs.run (follow env) (start autoOrderId, prev) ticks).1 =
      after env autoOrderId ticks :=
    Runs.run_fst (fun _ tick => tick) (start autoOrderId) prev ticks
  have hStep : ∀ s : State × TickData, Inv env s.1 → ∀ tick ∈ ticks,
      Inv env (follow env s tick).1 ∧
        (follow env s tick).1.engine.worth [] (follow env s tick).2 =
          s.1.engine.worth [] s.2 +
            (marketGain env s.1 s.2 tick - spreadCost env s.1 tick - lostProfit env s.1 tick) := by
    intro s h tick _
    refine ⟨h.onTick tick, ?_⟩
    rw [follow, worth_onTick env tick h.book, worth_between h s.2 tick]
    ring
  have hBalance := Runs.run_balance _ (fun s : State × TickData => s.1.engine.worth [] s.2) _
    (s := (start autoOrderId, prev)) (inv_start env autoOrderId) hStep
  have hStart : (start autoOrderId).engine.worth [] prev = 0 := by
    simp [worth, realised, start]
  rw [← worth_eq_reported, ← hState, ← run_follow_snd env (start autoOrderId) prev, hBalance, hStart,
    zero_add]

end Fxquant.Ladder
