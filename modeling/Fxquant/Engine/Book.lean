import Mathlib.Logic.Function.Basic
import Fxquant.Common.Order

/-!
# The order book of an engine

`fx_engine` keeps its orders as shared objects in four lists; `strategy` gives the strategies
the operations on them. The objects live in a heap, so two entries of one address are one
order. `order_events_` is the log of the pushes made into it: the action, the order it was
pushed for, and the clone the event carries.
-/

namespace Fxquant

structure OrderEvent where
  action : OrderAction
  optr : Ptr
  clone : Order
  deriving DecidableEq, Repr

structure FxEngine where
  heap : Ptr → Order := fun _ => default
  nextPtr : Ptr := 0
  autoOrderId : ℕ := 0
  newOrders : List Ptr := []
  pendingOrders : List Ptr := []
  openedOrders : List Ptr := []
  closedOrders : List Ptr := []
  latestTick : Option TickData := none
  orderEvents : List OrderEvent := []

namespace FxEngine

def allocate (e : FxEngine) (o : Order) : FxEngine :=
  { e with heap := Function.update e.heap e.nextPtr o, nextPtr := e.nextPtr + 1 }

def pushEvent (e : FxEngine) (action : OrderAction) (optr : Ptr) : FxEngine :=
  { e with orderEvents := e.orderEvents ++ [⟨action, optr, e.heap optr⟩] }

/-- `order_send<T>` of a strategy. The object is the only one with its address, so the
`open` that follows its construction is done before it is stored. -/
def orderSend (e : FxEngine) (type : OrderType) (symbol : Symbol) (tick : TickData)
    (volume openPrice : ℚ) (sl tp : ℤ) (data : Option Ptr) : FxEngine × Bool :=
  let id := e.autoOrderId + 1
  match Order.ofPoints type symbol volume openPrice sl tp id with
  | none => ({ e with autoOrderId := id }, false)
  | some o =>
    let o := { o with customData := data }
    let o := (o.openAt tick).getD o
    let optr := e.nextPtr
    let e := { e with autoOrderId := id }.allocate o
    let e := { e with openedOrders := e.openedOrders ++ [optr] }
    (e.pushEvent .opened optr, true)

/-- What follows a `close(tick)` that answered true and left the order as `o`: the order goes
to `closed_orders_` and its event is pushed. -/
def recordClosed (e : FxEngine) (optr : Ptr) (o : Order) : FxEngine :=
  { e with
    heap := Function.update e.heap optr o
    closedOrders := e.closedOrders ++ [optr] }.pushEvent .closed optr

/-- The loop of `close_trade`, `passed` being the entries before the iterator. -/
def closeTradeFrom (e : FxEngine) (tick : TickData) (closeOptr : Ptr) (passed : List Ptr) :
    List Ptr → FxEngine × Bool
  | [] => (e, false)
  | optr :: rest =>
    if optr = closeOptr then
      match (e.heap optr).closeAt tick with
      | some o => ({ e with openedOrders := passed ++ rest }.recordClosed optr o, true)
      | none => closeTradeFrom e tick closeOptr (passed ++ [optr]) rest
    else closeTradeFrom e tick closeOptr (passed ++ [optr]) rest

def closeTrade (e : FxEngine) (tick : TickData) (closeOptr : Ptr) : FxEngine × Bool :=
  closeTradeFrom e tick closeOptr [] e.openedOrders

/-- The loop over orders to close of `close_all_trades` and of `default_strategy::on_tick`. -/
def closeEach (tick : TickData) : FxEngine → List Ptr → FxEngine
  | e, [] => e
  | e, optr :: rest =>
    match (e.heap optr).closeAt tick with
    | some o => closeEach tick (e.recordClosed optr o) rest
    | none => closeEach tick e rest

def closeAllTrades (e : FxEngine) (tick : TickData) : FxEngine :=
  { closeEach tick e e.openedOrders with openedOrders := [] }

def getEquity (e : FxEngine) (tick : TickData) : ℚ :=
  e.openedOrders.foldl (fun profit optr => profit + (e.heap optr).profitAt tick) 0

@[simp] theorem recordClosed_openedOrders (e : FxEngine) (optr : Ptr) (o : Order) :
    (e.recordClosed optr o).openedOrders = e.openedOrders := rfl

@[simp] theorem recordClosed_closedOrders (e : FxEngine) (optr : Ptr) (o : Order) :
    (e.recordClosed optr o).closedOrders = e.closedOrders ++ [optr] := rfl

@[simp] theorem recordClosed_heap (e : FxEngine) (optr : Ptr) (o : Order) :
    (e.recordClosed optr o).heap = Function.update e.heap optr o := rfl

/-- What is read of orders other than the one that was closed. -/
theorem map_recordClosed {β : Type*} (e : FxEngine) (f : Ptr → Order → β) {optr : Ptr} (o : Order)
    {l : List Ptr} (h : optr ∉ l) :
    (l.map fun p => f p ((e.recordClosed optr o).heap p)) = l.map fun p => f p (e.heap p) := by
  apply List.map_congr_left
  intro p hp
  rw [recordClosed_heap, Function.update_of_ne (ne_of_mem_of_not_mem hp h)]

@[simp] theorem recordClosed_nextPtr (e : FxEngine) (optr : Ptr) (o : Order) :
    (e.recordClosed optr o).nextPtr = e.nextPtr := rfl

@[simp] theorem recordClosed_orderEvents (e : FxEngine) (optr : Ptr) (o : Order) :
    (e.recordClosed optr o).orderEvents = e.orderEvents ++ [⟨.closed, optr, o⟩] := by
  simp [recordClosed, pushEvent]

/-- The order that `order_send<T>` puts on the book, as it is when its event is pushed; `none`
when the constructor throws. -/
def sentOrder (type : OrderType) (symbol : Symbol) (tick : TickData) (volume openPrice : ℚ)
    (sl tp : ℤ) (id : ℕ) (data : Option Ptr) : Option Order :=
  (Order.ofPoints type symbol volume openPrice sl tp id).map fun o =>
    ({ o with customData := data }.openAt tick).getD { o with customData := data }

def place (e : FxEngine) (o : Order) : FxEngine :=
  { e with
    autoOrderId := e.autoOrderId + 1
    heap := Function.update e.heap e.nextPtr o
    nextPtr := e.nextPtr + 1
    openedOrders := e.openedOrders ++ [e.nextPtr]
    orderEvents := e.orderEvents ++ [⟨.opened, e.nextPtr, o⟩] }

@[simp] theorem place_heap_self (e : FxEngine) (o : Order) : (e.place o).heap e.nextPtr = o :=
  Function.update_self _ _ _

theorem place_heap_of_lt {e : FxEngine} (o : Order) {p : Ptr} (h : p < e.nextPtr) :
    (e.place o).heap p = e.heap p := Function.update_of_ne (Nat.ne_of_lt h) _ _

theorem orderSend_eq (e : FxEngine) (type : OrderType) (symbol : Symbol) (tick : TickData)
    (volume openPrice : ℚ) (sl tp : ℤ) (data : Option Ptr) :
    (e.orderSend type symbol tick volume openPrice sl tp data).1 =
      match sentOrder type symbol tick volume openPrice sl tp (e.autoOrderId + 1) data with
      | some o => e.place o
      | none => { e with autoOrderId := e.autoOrderId + 1 } := by
  cases h : Order.ofPoints type symbol volume openPrice sl tp (e.autoOrderId + 1) with
  | none => simp [orderSend, sentOrder, h]
  | some o => simp [orderSend, sentOrder, h, place, allocate, pushEvent]

theorem sentOrder_eq_map (type : OrderType) (symbol : Symbol) (tick : TickData)
    (volume openPrice : ℚ) (sl tp : ℤ) (id : ℕ) (data : Option Ptr) :
    sentOrder type symbol tick volume openPrice sl tp id data =
      (sentOrder type symbol tick volume openPrice sl tp 0 none).map
        fun o => { o with id := id, customData := data } := by
  cases type <;>
    simp only [sentOrder, Order.ofPoints, OrderType.isBuy, if_true, Bool.false_eq_true, if_false,
      Order.ofPrices, Order.isValid] <;>
    split <;> simp [Order.openAt, Order.checkOpen, Order.isOpened] <;> split <;> rfl

/-- An order sent at the market is open, at the price of its side, with the tick on record. -/
theorem sentOrder_spec {type : OrderType} (hType : type = .buyOrder ∨ type = .sellOrder)
    {symbol : Symbol} {tick : TickData} {volume openPrice : ℚ} {sl tp : ℤ} {id : ℕ}
    {data : Option Ptr} {o : Order}
    (h : sentOrder type symbol tick volume openPrice sl tp id data = some o) :
    o.type = type ∧ o.id = id ∧ o.symbol = symbol ∧ o.volume = volume ∧ o.customData = data ∧
      o.openTick = some tick ∧ o.isOpen = true ∧
      o.openPrice = some (if type = .buyOrder then tick.ask else tick.bid) := by
  obtain ⟨o', hPoints, rfl⟩ := Option.map_eq_some_iff.mp h
  obtain ⟨rfl, rfl, rfl, rfl, hOpen, hClosed, _⟩ := Order.ofPoints_eq_some hPoints
  rcases hType with hType | hType <;>
    simp [Order.openAt, Order.checkOpen, Order.isOpen, Order.isOpened, Order.isClosed,
      OrderType.isBuy, hType, hOpen, hClosed]

theorem closeTradeFrom_eq {e : FxEngine} {tick : TickData} {closeOptr : Ptr} {o : Order}
    (hClose : (e.heap closeOptr).closeAt tick = some o) (passed rest : List Ptr)
    (h : closeOptr ∈ rest) :
    closeTradeFrom e tick closeOptr passed rest =
      ({ e with openedOrders := passed ++ rest.erase closeOptr }.recordClosed closeOptr o, true) := by
  induction rest generalizing passed with
  | nil => cases h
  | cons optr rest ih =>
    rw [closeTradeFrom]
    by_cases hEq : optr = closeOptr
    · subst hEq
      simp only [if_true, hClose, List.erase_cons_head]
    · have hRest : closeOptr ∈ rest := (List.mem_cons.mp h).resolve_left (Ne.symm hEq)
      rw [if_neg hEq, ih _ hRest, List.erase_cons_tail (by simpa using hEq)]
      simp

theorem closeTrade_eq {e : FxEngine} {tick : TickData} {optr : Ptr} {o : Order}
    (hClose : (e.heap optr).closeAt tick = some o) (h : optr ∈ e.openedOrders) :
    e.closeTrade tick optr =
      ({ e with openedOrders := e.openedOrders.erase optr }.recordClosed optr o, true) := by
  rw [closeTrade, closeTradeFrom_eq hClose [] e.openedOrders h]
  rfl

theorem closeEach_withOpened (tick : TickData) (e : FxEngine) (opened closing : List Ptr) :
    closeEach tick { e with openedOrders := opened } closing =
      { closeEach tick e closing with openedOrders := opened } := by
  induction closing generalizing e with
  | nil => rfl
  | cons optr closing ih =>
    rw [closeEach, closeEach]
    cases hClose : (e.heap optr).closeAt tick with
    | none => exact ih e
    | some o => exact ih (e.recordClosed optr o)

theorem closeAllTrades_eq (e : FxEngine) (tick : TickData) :
    e.closeAllTrades tick = closeEach tick { e with openedOrders := [] } e.openedOrders := by
  rw [closeEach_withOpened]
  rfl

end FxEngine

end Fxquant
