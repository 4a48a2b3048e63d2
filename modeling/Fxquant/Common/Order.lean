import Fxquant.Common.Market

/-!
# Orders

`order.h` and `order.cpp`: the six order types over `base_buy_order` and `base_sell_order`. An
`undefined_value<double>()` is `none`. The functions of the source that answer `false` and leave
the order alone answer `none` here.
-/

namespace Fxquant

/-- The address of a shared object: two `shared_ptr` are equal when their addresses are. -/
abbrev Ptr := ℕ

inductive OrderAction where
  | undefined | submitted | opened | closed | modified | deleted
  deriving DecidableEq, Repr

inductive OrderType where
  | buyOrder | buyLimitOrder | buyStopOrder | sellOrder | sellLimitOrder | sellStopOrder
  deriving DecidableEq, Repr, Inhabited

/-- The types derived from `base_buy_order`. -/
def OrderType.isBuy : OrderType → Bool
  | .buyOrder | .buyLimitOrder | .buyStopOrder => true
  | .sellOrder | .sellLimitOrder | .sellStopOrder => false

/-- `order_price_` is finite and `custom_data_ptr_` points into the strategy's own data. -/
structure Order where
  type : OrderType
  id : ℕ
  symbol : Symbol
  volume : ℚ
  orderPrice : ℚ
  openPrice : Option ℚ := none
  closePrice : Option ℚ := none
  stopLoss : Option ℚ := none
  takeProfit : Option ℚ := none
  openTime : ℤ := 0
  closeTime : ℤ := 0
  openTick : Option TickData := none
  closeTick : Option TickData := none
  customData : Option Ptr := none
  deriving DecidableEq, Repr, Inhabited

namespace Order

def isOpened (o : Order) : Bool := o.openPrice.isSome

def isClosed (o : Order) : Bool := o.closePrice.isSome

def isValid (o : Order) : Bool :=
  if o.type.isBuy then
    !(decide (o.orderPrice ≤ 0) || decide (o.volume < 1 / 100) ||
      o.stopLoss.any (fun sl => decide (o.orderPrice ≤ sl)) ||
      o.takeProfit.any (fun tp => decide (tp ≤ o.orderPrice)))
  else
    !(decide (o.orderPrice ≤ 0) || decide (o.volume < 1 / 100) ||
      o.stopLoss.any (fun sl => decide (sl ≤ o.orderPrice)) ||
      o.takeProfit.any (fun tp => decide (o.orderPrice ≤ tp)))

/-- The public constructors with prices; `none` is the `invalid_argument` they throw. -/
def ofPrices (type : OrderType) (symbol : Symbol) (volume orderPrice : ℚ)
    (stopLoss takeProfit : Option ℚ) (id : ℕ) : Option Order :=
  let o : Order := { type, id, symbol, volume, orderPrice, stopLoss, takeProfit }
  if o.isValid then some o else none

/-- The public constructors with stop loss and take profit in points. -/
def ofPoints (type : OrderType) (symbol : Symbol) (volume orderPrice : ℚ)
    (stopLoss takeProfit : ℤ) (id : ℕ) : Option Order :=
  if type.isBuy then
    ofPrices type symbol volume orderPrice (some (orderPrice - stopLoss * symbolPip symbol))
      (some (orderPrice + takeProfit * symbolPip symbol)) id
  else
    ofPrices type symbol volume orderPrice (some (orderPrice + stopLoss * symbolPip symbol))
      (some (orderPrice - takeProfit * symbolPip symbol)) id

def checkOpen (o : Order) (tick : TickData) : Bool :=
  match o.type with
  | .buyOrder | .sellOrder => !o.isOpened
  | .buyLimitOrder => !o.isOpened && decide (tick.ask ≤ o.orderPrice)
  | .buyStopOrder => !o.isOpened && decide (o.orderPrice ≤ tick.ask)
  | .sellLimitOrder => !o.isOpened && decide (o.orderPrice ≤ tick.bid)
  | .sellStopOrder => !o.isOpened && decide (tick.bid ≤ o.orderPrice)

def checkClose (o : Order) (tick : TickData) : Bool :=
  (o.isOpened && !o.isClosed) &&
    if o.type.isBuy then
      o.stopLoss.any (fun sl => decide (tick.bid ≤ sl)) ||
        o.takeProfit.any (fun tp => decide (tp ≤ tick.bid))
    else
      o.stopLoss.any (fun sl => decide (sl ≤ tick.ask)) ||
        o.takeProfit.any (fun tp => decide (tick.ask ≤ tp))

def openAt (o : Order) (tick : TickData) : Option Order :=
  if o.checkOpen tick then
    some { o with
      openPrice := some (if o.type.isBuy then tick.ask else tick.bid)
      openTime := tick.time
      openTick := some tick }
  else none

def closeAt (o : Order) (tick : TickData) : Option Order :=
  if o.isOpened && !o.isClosed then
    some { o with
      closePrice := some (if o.type.isBuy then tick.bid else tick.ask)
      closeTime := tick.time
      closeTick := some tick }
  else none

def openPriceValue (o : Order) : ℚ := o.openPrice.getD 0

/-- `get_profit(tick)`, for open orders. -/
def profitAt (o : Order) (tick : TickData) : ℚ :=
  if o.type.isBuy then (tick.bid - o.openPriceValue) / symbolPip o.symbol * o.volume
  else (o.openPriceValue - tick.ask) / symbolPip o.symbol * o.volume

/-- `get_profit()`, undefined until the order is closed. -/
def profit (o : Order) : Option ℚ :=
  o.closePrice.map fun closePrice =>
    if o.type.isBuy then (closePrice - o.openPriceValue) / symbolPip o.symbol * o.volume
    else (o.openPriceValue - closePrice) / symbolPip o.symbol * o.volume

def profitValue (o : Order) : ℚ := o.profit.getD 0

/-- What both `get_profit` compute for a price to close at, in doubles. -/
def roundedGain (o : Order) (price : ℚ) : ℚ :=
  let difference := if o.type.isBuy then price - o.openPriceValue else o.openPriceValue - price
  Doubles.rounded (Doubles.rounded (Doubles.rounded difference /
    Doubles.rounded (symbolPip o.symbol)) * o.volume)

/-- `get_profit(tick)` in doubles. -/
def roundedProfitAt (o : Order) (tick : TickData) : ℚ :=
  o.roundedGain (if o.type.isBuy then tick.bid else tick.ask)

/-- `get_profit()` in doubles. -/
def roundedProfit (o : Order) : Option ℚ := o.closePrice.map o.roundedGain

/-- An order on the market: opened and not closed. -/
def isOpen (o : Order) : Bool := o.isOpened && !o.isClosed

theorem ofPrices_eq_some {type : OrderType} {symbol : Symbol} {volume orderPrice : ℚ}
    {stopLoss takeProfit : Option ℚ} {id : ℕ} {o : Order}
    (h : ofPrices type symbol volume orderPrice stopLoss takeProfit id = some o) :
    o = { type, id, symbol, volume, orderPrice, stopLoss, takeProfit } ∧ o.isValid = true := by
  simp only [ofPrices, Option.ite_none_right_eq_some, Option.some.injEq] at h
  obtain ⟨hValid, rfl⟩ := h
  exact ⟨rfl, hValid⟩

theorem ofPoints_eq_some {type : OrderType} {symbol : Symbol} {volume orderPrice : ℚ}
    {stopLoss takeProfit : ℤ} {id : ℕ} {o : Order}
    (h : ofPoints type symbol volume orderPrice stopLoss takeProfit id = some o) :
    o.type = type ∧ o.id = id ∧ o.symbol = symbol ∧ o.volume = volume ∧
      o.openPrice = none ∧ o.closePrice = none ∧ o.isValid = true := by
  unfold ofPoints at h
  split at h
  · obtain ⟨rfl, hValid⟩ := ofPrices_eq_some h
    exact ⟨rfl, rfl, rfl, rfl, rfl, rfl, hValid⟩
  · obtain ⟨rfl, hValid⟩ := ofPrices_eq_some h
    exact ⟨rfl, rfl, rfl, rfl, rfl, rfl, hValid⟩

theorem openTick_of_ofPoints {type : OrderType} {symbol : Symbol} {volume orderPrice : ℚ}
    {stopLoss takeProfit : ℤ} {id : ℕ} {o : Order}
    (h : ofPoints type symbol volume orderPrice stopLoss takeProfit id = some o) :
    o.openTick = none := by
  unfold ofPoints at h
  split at h
  · obtain ⟨rfl, _⟩ := ofPrices_eq_some h
    rfl
  · obtain ⟨rfl, _⟩ := ofPrices_eq_some h
    rfl

theorem closeAt_eq_some_iff {o o' : Order} {tick : TickData} :
    o.closeAt tick = some o' ↔ o.isOpen = true ∧
      o' = { o with
        closePrice := some (if o.type.isBuy then tick.bid else tick.ask)
        closeTime := tick.time
        closeTick := some tick } := by
  rw [closeAt, isOpen]
  simp only [Option.ite_none_right_eq_some, Option.some.injEq]
  exact and_congr_right fun _ => eq_comm

theorem closeAt_isClosed {o o' : Order} {tick : TickData} (h : o.closeAt tick = some o') :
    o'.isOpened = true ∧ o'.isClosed = true := by
  obtain ⟨hOpen, rfl⟩ := closeAt_eq_some_iff.mp h
  rw [isOpen, Bool.and_eq_true] at hOpen
  exact ⟨hOpen.1, rfl⟩

theorem exists_closeAt {o : Order} (tick : TickData) (h : o.isOpen = true) :
    ∃ o', o.closeAt tick = some o' :=
  ⟨_, closeAt_eq_some_iff.mpr ⟨h, rfl⟩⟩

theorem profit_of_closeAt {o o' : Order} {tick : TickData} (h : o.closeAt tick = some o') :
    o'.profit = some (o.profitAt tick) := by
  obtain ⟨_, rfl⟩ := closeAt_eq_some_iff.mp h
  cases hType : o.type.isBuy <;>
    simp [profit, profitAt, openPriceValue, hType]

theorem roundedProfit_of_closeAt {o o' : Order} {tick : TickData} (h : o.closeAt tick = some o') :
    o'.roundedProfit = some (o.roundedProfitAt tick) := by
  obtain ⟨_, rfl⟩ := closeAt_eq_some_iff.mp h
  rfl

theorem isOpen_of_checkClose {o : Order} {tick : TickData} (h : o.checkClose tick = true) :
    o.isOpen = true := by
  rw [checkClose, Bool.and_eq_true] at h
  exact h.1

end Order

end Fxquant
