import Fxquant.Common.Order
import Fxquant.Library.Lifecycle
import Fxquant.Library.Runs

/-!
# Orders with undefined values

`base_order` keeps prices and levels as doubles; infinity is the price that is not there yet and
the level that is not set. Any double can be passed to the constructors and the setters, so here
the orders are those of the source, number by number. `Order` is what they are as long as all
numbers that are given are finite.
-/

namespace Fxquant

open Doubles

/-- `undefined_value<double>()`. -/
def undefinedValue : Double := .inf false

structure RawOrder where
  type : OrderType
  id : ℕ
  symbol : Symbol
  volume : Double
  orderPrice : Double
  openPrice : Double := undefinedValue
  closePrice : Double := undefinedValue
  stopLoss : Double
  takeProfit : Double
  openTime : ℤ := 0
  closeTime : ℤ := 0
  openTick : Option TickData := none
  closeTick : Option TickData := none
  deriving DecidableEq, Repr

namespace RawOrder

def hasStopLoss (o : RawOrder) : Bool := decide (o.stopLoss ≠ undefinedValue)

def hasTakeProfit (o : RawOrder) : Bool := decide (o.takeProfit ≠ undefinedValue)

def isOpened (o : RawOrder) : Bool := decide (o.openPrice ≠ undefinedValue)

def isClosed (o : RawOrder) : Bool := decide (o.closePrice ≠ undefinedValue)

def isValid (o : RawOrder) : Bool :=
  if o.type.isBuy then
    !(decide (o.orderPrice = undefinedValue) || o.orderPrice.le (.fin 0) ||
      o.volume.lt (.fin (1 / 100)) || (o.hasStopLoss && o.orderPrice.le o.stopLoss) ||
      (o.hasTakeProfit && o.takeProfit.le o.orderPrice))
  else
    !(decide (o.orderPrice = undefinedValue) || o.orderPrice.le (.fin 0) ||
      o.volume.lt (.fin (1 / 100)) || (o.hasStopLoss && o.stopLoss.le o.orderPrice) ||
      (o.hasTakeProfit && o.orderPrice.le o.takeProfit))

/-- The public constructors with prices; `none` is the `invalid_argument` they throw. -/
def ofPrices (type : OrderType) (symbol : Symbol) (volume orderPrice stopLoss takeProfit : Double)
    (id : ℕ) : Option RawOrder :=
  let o : RawOrder := { type, id, symbol, volume, orderPrice, stopLoss, takeProfit }
  if o.isValid then some o else none

/-- The public constructors with stop loss and take profit in points. -/
def ofPoints (type : OrderType) (symbol : Symbol) (volume orderPrice : Double)
    (stopLoss takeProfit : ℤ) (id : ℕ) : Option RawOrder :=
  if type.isBuy then
    ofPrices type symbol volume orderPrice (orderPrice.sub (.fin (stopLoss * symbolPip symbol)))
      (orderPrice.add (.fin (takeProfit * symbolPip symbol))) id
  else
    ofPrices type symbol volume orderPrice (orderPrice.add (.fin (stopLoss * symbolPip symbol)))
      (orderPrice.sub (.fin (takeProfit * symbolPip symbol))) id

/-! ### Setters -/

def baseSetStopLoss (o : RawOrder) (value : Double) : RawOrder × Bool :=
  if (Double.fin 0).lt value then ({ o with stopLoss := value }, true) else (o, false)

def baseSetTakeProfit (o : RawOrder) (value : Double) : RawOrder × Bool :=
  if (Double.fin 0).lt value then ({ o with takeProfit := value }, true) else (o, false)

def setStopLoss (o : RawOrder) (value : Double) : RawOrder × Bool :=
  if o.type.isBuy then
    if decide (value = undefinedValue) || value.lt o.orderPrice then o.baseSetStopLoss value
    else (o, false)
  else
    if decide (value = undefinedValue) || o.orderPrice.lt value then o.baseSetStopLoss value
    else (o, false)

def setTakeProfit (o : RawOrder) (value : Double) : RawOrder × Bool :=
  if o.type.isBuy then
    if decide (value = undefinedValue) || o.orderPrice.lt value then o.baseSetTakeProfit value
    else (o, false)
  else
    if decide (value = undefinedValue) || value.lt o.orderPrice then o.baseSetTakeProfit value
    else (o, false)

def resetStopLoss (o : RawOrder) : RawOrder := { o with stopLoss := undefinedValue }

def resetTakeProfit (o : RawOrder) : RawOrder := { o with takeProfit := undefinedValue }

/-! ### Opening and closing -/

def checkOpen (o : RawOrder) (tick : TickData) : Bool :=
  match o.type with
  | .buyOrder | .sellOrder => !o.isOpened
  | .buyLimitOrder => !o.isOpened && (Double.fin tick.ask).le o.orderPrice
  | .buyStopOrder => !o.isOpened && o.orderPrice.le (.fin tick.ask)
  | .sellLimitOrder => !o.isOpened && o.orderPrice.le (.fin tick.bid)
  | .sellStopOrder => !o.isOpened && (Double.fin tick.bid).le o.orderPrice

def checkClose (o : RawOrder) (tick : TickData) : Bool :=
  (o.isOpened && !o.isClosed) &&
    if o.type.isBuy then
      (o.hasStopLoss && (Double.fin tick.bid).le o.stopLoss) ||
        (o.hasTakeProfit && o.takeProfit.le (.fin tick.bid))
    else
      (o.hasStopLoss && o.stopLoss.le (.fin tick.ask)) ||
        (o.hasTakeProfit && (Double.fin tick.ask).le o.takeProfit)

def openAt (o : RawOrder) (tick : TickData) : RawOrder × Bool :=
  if o.checkOpen tick then
    ({ o with
      openPrice := .fin (if o.type.isBuy then tick.ask else tick.bid)
      openTime := tick.time
      openTick := some tick }, true)
  else (o, false)

def closeAt (o : RawOrder) (tick : TickData) : RawOrder × Bool :=
  if o.isOpened && !o.isClosed then
    ({ o with
      closePrice := .fin (if o.type.isBuy then tick.bid else tick.ask)
      closeTime := tick.time
      closeTick := some tick }, true)
  else (o, false)

/-- `get_profit(tick)`. -/
def profitAt (o : RawOrder) (tick : TickData) : Double :=
  if o.type.isBuy then
    (((Double.fin tick.bid).sub o.openPrice).scale (1 / symbolPip o.symbol)).mul o.volume
  else ((o.openPrice.sub (.fin tick.ask)).scale (1 / symbolPip o.symbol)).mul o.volume

/-- `get_profit()`. -/
def profit (o : RawOrder) : Double :=
  if o.isClosed then
    if o.type.isBuy then
      ((o.closePrice.sub o.openPrice).scale (1 / symbolPip o.symbol)).mul o.volume
    else ((o.openPrice.sub o.closePrice).scale (1 / symbolPip o.symbol)).mul o.volume
  else undefinedValue

inductive Call where
  | openAt (tick : TickData)
  | closeAt (tick : TickData)
  | setStopLoss (value : Double)
  | setTakeProfit (value : Double)
  | resetStopLoss
  | resetTakeProfit
  deriving DecidableEq, Repr

/-- A call with its answer; the resets return nothing and never fail. -/
def call (o : RawOrder) : Call → RawOrder × Bool
  | .openAt tick => o.openAt tick
  | .closeAt tick => o.closeAt tick
  | .setStopLoss value => o.setStopLoss value
  | .setTakeProfit value => o.setTakeProfit value
  | .resetStopLoss => (o.resetStopLoss, true)
  | .resetTakeProfit => (o.resetTakeProfit, true)

def step (o : RawOrder) (c : Call) : RawOrder := (o.call c).1

end RawOrder

/-! ### Orders of finite numbers -/

def orUndefined : Option ℚ → Double
  | none => undefinedValue
  | some a => .fin a

@[simp] theorem orUndefined_ne_undefinedValue (v : Option ℚ) :
    orUndefined v ≠ undefinedValue ↔ v.isSome = true := by
  cases v <;> simp [orUndefined, undefinedValue]

/-- A level counts when it is set. -/
theorem le_level {x level : Double} {a : ℚ} {v : Option ℚ} (hx : x = .fin a)
    (hLevel : level = orUndefined v) :
    (decide (level ≠ undefinedValue) && x.le level) = v.any fun b => decide (a ≤ b) := by
  subst hx hLevel
  cases v <;> simp [orUndefined, undefinedValue, Double.le]

theorem level_le {x level : Double} {a : ℚ} {v : Option ℚ} (hx : x = .fin a)
    (hLevel : level = orUndefined v) :
    (decide (level ≠ undefinedValue) && level.le x) = v.any fun b => decide (b ≤ a) := by
  subst hx hLevel
  cases v <;> simp [orUndefined, undefinedValue, Double.le]

theorem fin_lt_fin (a b : ℚ) : (Double.fin a).lt (.fin b) = decide (a < b) := by
  simp only [Double.lt, Double.le, ← decide_not, ← Bool.decide_and, not_le, decide_eq_decide]
  exact ⟨fun h => h.2, fun h => ⟨h.le, h⟩⟩

namespace Order

/-- The doubles that an order of finite numbers is kept in. -/
def raw (o : Order) : RawOrder where
  type := o.type
  id := o.id
  symbol := o.symbol
  volume := .fin o.volume
  orderPrice := .fin o.orderPrice
  openPrice := orUndefined o.openPrice
  closePrice := orUndefined o.closePrice
  stopLoss := orUndefined o.stopLoss
  takeProfit := orUndefined o.takeProfit
  openTime := o.openTime
  closeTime := o.closeTime
  openTick := o.openTick
  closeTick := o.closeTick

theorem raw_isOpened (o : Order) : o.raw.isOpened = o.isOpened := by
  simp [RawOrder.isOpened, raw, isOpened]

theorem raw_isClosed (o : Order) : o.raw.isClosed = o.isClosed := by
  simp [RawOrder.isClosed, raw, isClosed]

theorem raw_isValid (o : Order) : o.raw.isValid = o.isValid := by
  have hPrice : o.raw.orderPrice = .fin o.orderPrice := rfl
  have hStopLoss : o.raw.stopLoss = orUndefined o.stopLoss := rfl
  have hTakeProfit : o.raw.takeProfit = orUndefined o.takeProfit := rfl
  have hDefined : decide (o.raw.orderPrice = undefinedValue) = false := by
    simp [hPrice, undefinedValue]
  have hVolume : o.raw.volume.lt (.fin (1 / 100)) = decide (o.volume < 1 / 100) := fin_lt_fin _ _
  rw [RawOrder.isValid, RawOrder.hasStopLoss, RawOrder.hasTakeProfit, le_level hPrice hStopLoss,
    level_le hPrice hTakeProfit, level_le hPrice hStopLoss, le_level hPrice hTakeProfit, hDefined,
    hVolume]
  rfl

theorem raw_checkOpen (o : Order) (tick : TickData) : o.raw.checkOpen tick = o.checkOpen tick := by
  rw [RawOrder.checkOpen, checkOpen, raw_isOpened]
  rfl

theorem raw_checkClose (o : Order) (tick : TickData) :
    o.raw.checkClose tick = o.checkClose tick := by
  have hStopLoss : o.raw.stopLoss = orUndefined o.stopLoss := rfl
  have hTakeProfit : o.raw.takeProfit = orUndefined o.takeProfit := rfl
  rw [RawOrder.checkClose, checkClose, raw_isOpened, raw_isClosed, RawOrder.hasStopLoss,
    RawOrder.hasTakeProfit, le_level rfl hStopLoss, level_le rfl hTakeProfit, level_le rfl hStopLoss,
    le_level rfl hTakeProfit]
  rfl

/-- An order opens as its doubles do. -/
theorem raw_openAt (o : Order) (tick : TickData) :
    o.raw.openAt tick = (((o.openAt tick).getD o).raw, (o.openAt tick).isSome) := by
  rw [RawOrder.openAt, openAt, raw_checkOpen]
  split
  · rfl
  · rfl

theorem raw_closeAt (o : Order) (tick : TickData) :
    o.raw.closeAt tick = (((o.closeAt tick).getD o).raw, (o.closeAt tick).isSome) := by
  rw [RawOrder.closeAt, closeAt, raw_isOpened, raw_isClosed]
  split
  · rfl
  · rfl

theorem raw_ofPrices (type : OrderType) (symbol : Symbol) (volume orderPrice : ℚ)
    (stopLoss takeProfit : Option ℚ) (id : ℕ) :
    RawOrder.ofPrices type symbol (.fin volume) (.fin orderPrice) (orUndefined stopLoss)
        (orUndefined takeProfit) id =
      (ofPrices type symbol volume orderPrice stopLoss takeProfit id).map raw := by
  have hValid := raw_isValid { type, id, symbol, volume, orderPrice, stopLoss, takeProfit }
  simp only [RawOrder.ofPrices, ofPrices]
  rw [← hValid, apply_ite (Option.map raw)]
  rfl

end Order

end Fxquant
