import Fxquant.Engine.Worth
import Fxquant.Gui.Server
import Fxquant.Ladder.Reachable

/-!
# What the order events tell of the book

Every event carries a clone of its order, and `gui_server` keeps them all for the clients to come.
The last event of an order shows the order as it is. An order that is lost stays opened for every
client, for nothing follows its first event.
-/

namespace Fxquant

open FxEngine Lifecycle

theorem Order.id_of_terms {o o' : Order} (h : o'.terms = o.terms) : o'.id = o.id := by
  have hId : o'.terms.id = o.terms.id := by rw [h]
  exact hId

namespace FxEngine

/-- The event that shows an order as it is. -/
def entry (e : FxEngine) (p : Ptr) : OrderEvent :=
  ⟨if p ∈ e.closedOrders then .closed else .opened, p, e.heap p⟩

def entries (e : FxEngine) (p : Ptr) : Option OrderEvent :=
  if p < e.nextPtr then some (e.entry p) else none

structure Journal (e : FxEngine) : Prop where
  table : table OrderEvent.optr e.orderEvents = e.entries
  terms : ∀ event ∈ e.orderEvents, event.clone.terms = (e.heap event.optr).terms
  increasing : ∀ p q, p < q → q < e.nextPtr → (e.heap p).id < (e.heap q).id
  counted : ∀ p < e.nextPtr, (e.heap p).id ≤ e.autoOrderId

namespace Journal

variable {e : FxEngine}

theorem empty (autoOrderId : ℕ) : Journal { autoOrderId } where
  table := by
    funext p
    simp [entries, table_nil]
  terms := by simp
  increasing p q _ hq := absurd hq (Nat.not_lt_zero q)
  counted p hp := absurd hp (Nat.not_lt_zero p)

theorem optr_lt (h : Journal e) {event : OrderEvent} (hEvent : event ∈ e.orderEvents) :
    event.optr < e.nextPtr := by
  by_contra hNot
  have hNone : Lifecycle.table OrderEvent.optr e.orderEvents event.optr = none := by
    rw [h.table, entries, if_neg hNot]
  exact table_eq_none_iff.mp hNone event hEvent rfl

/-- What the events tell does not depend on the list of the open orders. -/
theorem withOpened (h : Journal e) (opened : List Ptr) : Journal { e with openedOrders := opened } :=
  ⟨h.table, h.terms, h.increasing, h.counted⟩

theorem setAutoOrderId (h : Journal e) {n : ℕ} (hn : e.autoOrderId ≤ n) :
    Journal { e with autoOrderId := n } :=
  ⟨h.table, h.terms, h.increasing, fun p hp => (h.counted p hp).trans hn⟩

theorem entries_place {flight : List Ptr} (hInv : BookInv e flight) (o : Order) :
    (e.place o).entries = Function.update e.entries e.nextPtr (some ⟨.opened, e.nextPtr, o⟩) := by
  have hFresh : e.nextPtr ∉ e.closedOrders := fun hMem =>
    (hInv.allocated _ (List.mem_append_right _ hMem)).false
  funext p
  by_cases hp : p = e.nextPtr
  · subst hp
    have hEntry : (e.place o).entry e.nextPtr = ⟨.opened, e.nextPtr, o⟩ := by
      rw [entry, place_heap_self]
      exact congrArg (OrderEvent.mk · _ _) (if_neg hFresh)
    rw [Function.update_self, entries, hEntry]
    exact if_pos (Nat.lt_succ_self _)
  · have hHeap : (e.place o).heap p = e.heap p := Function.update_of_ne hp _ _
    have hIff : p < e.nextPtr + 1 ↔ p < e.nextPtr := by
      rw [Nat.lt_succ_iff_lt_or_eq, or_iff_left hp]
    rw [Function.update_of_ne hp, entries, entries, entry, hHeap]
    exact if_congr hIff rfl rfl

theorem place {flight : List Ptr} (h : Journal e) (hInv : BookInv e flight) {o : Order}
    (hId : o.id = e.autoOrderId + 1) : Journal (e.place o) := by
  have hOld : ∀ p < e.nextPtr, (e.place o).heap p = e.heap p := fun p hp => place_heap_of_lt o hp
  constructor
  case table =>
    rw [entries_place hInv, ← h.table]
    exact table_concat OrderEvent.optr e.orderEvents _
  case terms =>
    intro event hEvent
    rcases List.mem_append.mp hEvent with hEvent | hEvent
    · rw [hOld _ (h.optr_lt hEvent)]
      exact h.terms event hEvent
    · obtain rfl := List.mem_singleton.mp hEvent
      rw [place_heap_self]
  case increasing =>
    intro p q hpq hq
    rcases Nat.lt_succ_iff_lt_or_eq.mp hq with hq | rfl
    · rw [hOld p (hpq.trans hq), hOld q hq]
      exact h.increasing p q hpq hq
    · rw [hOld p hpq, place_heap_self, hId]
      exact Nat.lt_succ_of_le (h.counted p hpq)
  case counted =>
    intro p hp
    change _ ≤ e.autoOrderId + 1
    rcases Nat.lt_succ_iff_lt_or_eq.mp hp with hp | rfl
    · rw [hOld p hp]
      exact Nat.le_succ_of_le (h.counted p hp)
    · rw [place_heap_self, hId]

theorem entries_recordClosed {p : Ptr} (hp : p < e.nextPtr) (o : Order) :
    (e.recordClosed p o).entries = Function.update e.entries p (some ⟨.closed, p, o⟩) := by
  funext q
  by_cases hq : q = p
  · subst hq
    have hMem : q ∈ (e.recordClosed q o).closedOrders := by simp
    rw [Function.update_self, entries, entry, if_pos hMem, recordClosed_heap, Function.update_self,
      recordClosed_nextPtr, if_pos hp]
  · have hIff : q ∈ (e.recordClosed p o).closedOrders ↔ q ∈ e.closedOrders := by simp [hq]
    rw [Function.update_of_ne hq, entries, entries, entry, entry, recordClosed_heap,
      Function.update_of_ne hq, recordClosed_nextPtr, if_congr hIff rfl rfl]

theorem recordClosed (h : Journal e) {p : Ptr} (hp : p < e.nextPtr) {o : Order} {tick : TickData}
    (hClose : (e.heap p).closeAt tick = some o) : Journal (e.recordClosed p o) := by
  have hTerms := Ladder.terms_recordClosed hClose
  have hIds : ∀ q, ((e.recordClosed p o).heap q).id = (e.heap q).id := fun q =>
    Order.id_of_terms (hTerms q)
  constructor
  case table =>
    rw [entries_recordClosed hp, ← h.table, recordClosed_orderEvents]
    exact table_concat OrderEvent.optr e.orderEvents _
  case terms =>
    intro event hEvent
    rw [recordClosed_orderEvents] at hEvent
    rcases List.mem_append.mp hEvent with hEvent | hEvent
    · rw [hTerms]
      exact h.terms event hEvent
    · obtain rfl := List.mem_singleton.mp hEvent
      rw [recordClosed_heap, Function.update_self]
  case increasing =>
    intro q r hqr hr
    rw [hIds, hIds]
    exact h.increasing q r hqr hr
  case counted =>
    intro q hq
    rw [hIds]
    exact h.counted q hq

theorem closeEach {flight : List Ptr} (tick : TickData) (h : Journal e) (hInv : BookInv e flight) :
    Journal (FxEngine.closeEach tick e flight) := by
  induction flight generalizing e with
  | nil => exact h
  | cons p flight ih =>
    obtain ⟨o, hClose⟩ := Order.exists_closeAt tick (hInv.isOpen p (by simp))
    rw [FxEngine.closeEach]
    simp only [hClose]
    exact ih (h.recordClosed (hInv.allocated p (by simp)) hClose) (hInv.recordClosed hClose)

theorem closeAllTrades (tick : TickData) (h : Journal e) (hInv : BookInv e []) :
    Journal (e.closeAllTrades tick) := by
  rw [closeAllTrades_eq]
  exact (h.withOpened []).closeEach tick hInv.takeAll

/-- The id of an order finds the same events as its address. -/
theorem table_byId (h : Journal e) {p : Ptr} (hp : p < e.nextPtr) :
    Lifecycle.table (fun event => event.clone.id) e.orderEvents (e.heap p).id = some (e.entry p) := by
  have hIds : ∀ event ∈ e.orderEvents, event.clone.id = (e.heap p).id ↔ event.optr = p := by
    intro event hEvent
    rw [Order.id_of_terms (h.terms event hEvent)]
    constructor
    · intro hId
      rcases Nat.lt_trichotomy event.optr p with hLt | hEq | hGt
      · exact absurd hId (h.increasing _ p hLt hp).ne
      · exact hEq
      · exact absurd hId (h.increasing p _ hGt (h.optr_lt hEvent)).ne'
    · rintro rfl
      rfl
  rw [table_rekey hIds, h.table, entries, if_pos hp]

end Journal

end FxEngine

/-! ### What the server has saved -/

def OrderEvent.info (event : OrderEvent) : Gui.OrderInfo := ⟨event.clone, event.action⟩

/-- The server once it has been called for each event. One thread makes the calls, in the order
of the events. -/
def FxEngine.saved (e : FxEngine) : Gui.GuiServer :=
  Runs.run Gui.GuiServer.saveOrder {} (e.orderEvents.map OrderEvent.info)

theorem Gui.GuiServer.getOrders_run (sym : Symbol) (infos : List Gui.OrderInfo) :
    (Runs.run saveOrder {} infos).getOrders sym = infos.filter fun info => info.order.symbol = sym := by
  induction infos using List.reverseRecOn with
  | nil => rfl
  | append_singleton infos info ih =>
    rw [Runs.run_concat, List.filter_append, ← ih]
    by_cases hSym : info.order.symbol = sym
    · subst hSym
      simp
    · simp [saveOrder, getOrders, OrderedMap.find?_put_of_ne _ _ (Ne.symm hSym), hSym]

namespace Ladder

open Gui

/-! ### The events of a run -/

theorem journal_sendIf {env : Env} {s : State} {tick : TickData} {type : OrderType} {b : Bool}
    (h : Journal s.engine) (hInv : s.engine.BookInv []) : Journal (s.sendIf env tick type b).engine := by
  cases b with
  | false => exact h
  | true =>
    have hEq : (s.sendIf env tick type true).engine =
      (s.engine.orderSend type env.symbol tick env.params.volume (State.sidePrice tick type)
        env.params.sl env.params.tp (some s.nextData)).1 := rfl
    rw [hEq, orderSend_eq, sentOrder_eq_map]
    cases sentOrder type env.symbol tick env.params.volume (State.sidePrice tick type)
        env.params.sl env.params.tp 0 none with
    | none => exact h.setAutoOrderId (Nat.le_succ _)
    | some o => exact h.place hInv rfl

theorem journal_opened (env : Env) {s : State} (tick : TickData) (h : Journal s.engine)
    (hInv : s.engine.BookInv []) : Journal (s.opened env tick).engine := by
  have hInit : (s.initializeCompute env tick).engine.BookInv [] := by simpa using hInv
  rw [State.opened, State.tryOpeningOrders_eq]
  refine journal_sendIf (journal_sendIf ?_ hInit) (State.bookInv_sendIf (.inl rfl) hInit)
  simpa using h

theorem journal_checkOrdersClosing {s : State} (tick : TickData) (h : Journal s.engine)
    (hInv : s.engine.BookInv []) : Journal (s.checkOrdersClosing tick).1.engine := by
  cases hClosing : s.closingOrders tick with
  | nil => rwa [State.checkOrdersClosing_of_nil hClosing]
  | cons p rest =>
    obtain ⟨o, hClose, hEq⟩ := State.checkOrdersClosing_of_cons hInv hClosing
    have hOpened : p ∈ s.engine.openedOrders :=
      List.mem_of_mem_filter (hClosing ▸ List.mem_cons_self : p ∈ s.closingOrders tick)
    have hp : p < s.engine.nextPtr := hInv.allocated p (by simp [hOpened])
    rw [hEq]
    exact (h.withOpened (s.extracted tick).openedOrders).recordClosed hp hClose

theorem journal_closeCycle (env : Env) {s : State} (tick : TickData) (h : Journal s.engine)
    (hInv : s.engine.BookInv []) : Journal (s.closeCycle env tick).engine := by
  rw [State.closeCycle]
  split
  · exact h.closeAllTrades tick hInv
  · exact h

theorem journal_closeIfAllowed (env : Env) {s : State} (tick : TickData) (changeLots : Order → ℚ)
    {found : Option Ptr} (h : Journal s.engine) (hInv : s.engine.BookInv [])
    (hFound : ∀ p, found = some p → p ∈ s.engine.openedOrders) :
    Journal (s.closeIfAllowed env tick changeLots found).1.engine := by
  rcases State.closeIfAllowed_cases env tick changeLots hInv hFound with
    ⟨hEq, _⟩ | ⟨p, o, _, hMem, _, hClose, hEq⟩
  · rwa [hEq]
  · have hp : p < s.engine.nextPtr := hInv.allocated p (by simp [hMem])
    rw [hEq]
    exact (h.withOpened (s.engine.openedOrders.erase p)).recordClosed hp hClose

theorem journal_onTick (env : Env) {s : State} (tick : TickData) (h : Journal s.engine)
    (hInv : s.engine.BookInv []) : Journal (s.onTick env tick).engine := by
  have hSettledInv := State.bookInv_settled env tick hInv
  have hChecked : Journal (s.checked env tick).engine :=
    journal_checkOrdersClosing tick (journal_opened env tick h hInv) (State.bookInv_opened env tick hInv)
  have hSettled : Journal (s.settled env tick).engine :=
    journal_closeCycle env tick hChecked (State.bookInv_checked env tick hInv)
  have hBuy : Journal (s.settled env tick |>.softBuy env tick).engine :=
    journal_closeIfAllowed env tick _ hSettled hSettledInv
      fun _ hp => (State.findProfitableBuy_spec hp).1
  rw [State.onTick, State.isSoftTpClosed_eq]
  split
  · exact hSettled
  · exact journal_closeIfAllowed env tick _ hBuy (State.bookInv_softBuy env tick hSettledInv)
      fun _ hp => (State.findProfitableSell_spec hp).1

theorem journal_after (env : Env) (autoOrderId : ℕ) (ticks : List TickData) :
    Journal (after env autoOrderId ticks).engine :=
  (Runs.run_invariant (fun s : State => s.engine.BookInv [] ∧ Journal s.engine)
    (fun _ tick h => ⟨State.bookInv_onTick env tick h.1, journal_onTick env tick h.2 h.1⟩)
    ⟨bookInv_empty autoOrderId, Journal.empty autoOrderId⟩ ticks).2

theorem getOrders_saved (env : Env) (autoOrderId : ℕ) (ticks : List TickData) (sym : Symbol) :
    (after env autoOrderId ticks).engine.saved.getOrders sym =
      if sym = env.symbol then (after env autoOrderId ticks).engine.orderEvents.map OrderEvent.info
      else [] := by
  have hJournal := journal_after env autoOrderId ticks
  have hInv := inv_after env autoOrderId ticks
  have hSymbol : ∀ info ∈ (after env autoOrderId ticks).engine.orderEvents.map OrderEvent.info,
      info.order.symbol = env.symbol := by
    intro info hInfo
    obtain ⟨event, hEvent, rfl⟩ := List.mem_map.mp hInfo
    have hTerms := (hInv.orders _ (hJournal.optr_lt hEvent)).of_terms (hJournal.terms event hEvent)
    exact hTerms.2.1
  rw [saved, GuiServer.getOrders_run]
  split
  · rename_i hSym
    subst hSym
    exact List.filter_eq_self.mpr fun info hInfo => decide_eq_true (hSymbol info hInfo)
  · rename_i hSym
    refine List.filter_eq_nil_iff.mpr fun info hInfo => ?_
    rw [hSymbol info hInfo, decide_eq_true_eq]
    exact Ne.symm hSym

theorem sum_closed_saved {e : FxEngine} (h : e.BookInv []) :
    (((e.orderEvents.map OrderEvent.info).filter fun info => info.action = .closed).map
      fun info => info.order.profitValue).sum = e.calcClosedTradesStats.closeProfit := by
  have hFilter : (e.orderEvents.map OrderEvent.info).filter (fun info => info.action = .closed) =
      e.closedEvents.map OrderEvent.info := by
    rw [List.filter_map]
    rfl
  rw [hFilter, h.closedEvents, closeProfit_eq_realised, realised, List.map_map, List.map_map]
  rfl

/-- After any ticks, no two orders have one id, and what the server has saved of the symbol tells
of each order, by its id, what it is now: closed, or else opened, though it may be in no list. It
tells of no other order, and the profits it shows add up to the profit the engine reports. -/
theorem saved_orders_tell_book (env : Env) (autoOrderId : ℕ) (ticks : List TickData) :
    let e := (after env autoOrderId ticks).engine
    let infos := e.saved.getOrders env.symbol
    (∀ p < e.nextPtr, ∀ q < e.nextPtr, (e.heap p).id = (e.heap q).id → p = q) ∧
      (∀ p < e.nextPtr, table (fun info => info.order.id) infos (e.heap p).id =
        some ⟨e.heap p, if p ∈ e.closedOrders then .closed else .opened⟩) ∧
      (∀ info ∈ infos, ∃ p < e.nextPtr, info.order.terms = (e.heap p).terms) ∧
      ((infos.filter fun info => info.action = .closed).map fun info => info.order.profitValue).sum =
        e.calcClosedTradesStats.closeProfit ∧
      ∀ sym ≠ env.symbol, e.saved.getOrders sym = [] := by
  intro e infos
  have hJournal : Journal e := journal_after env autoOrderId ticks
  have hInfos : infos = e.orderEvents.map OrderEvent.info := by
    rw [show infos = _ from getOrders_saved env autoOrderId ticks env.symbol, if_pos rfl]
  refine ⟨fun p hp q hq hId => ?_, fun p hp => ?_, fun info hInfo => ?_, ?_, fun sym hSym => ?_⟩
  · rcases Nat.lt_trichotomy p q with hLt | hEq | hGt
    · exact absurd hId (hJournal.increasing p q hLt hq).ne
    · exact hEq
    · exact absurd hId (hJournal.increasing q p hGt hp).ne'
  · have hEntry := hJournal.table_byId hp
    rw [hInfos, table_map]
    exact congrArg (Option.map OrderEvent.info) hEntry
  · rw [hInfos] at hInfo
    obtain ⟨event, hEvent, rfl⟩ := List.mem_map.mp hInfo
    exact ⟨event.optr, hJournal.optr_lt hEvent, hJournal.terms event hEvent⟩
  · rw [hInfos]
    exact sum_closed_saved (inv_after env autoOrderId ticks).book
  · rw [show e.saved.getOrders sym = _ from getOrders_saved env autoOrderId ticks sym, if_neg hSym]

end Ladder

end Fxquant
