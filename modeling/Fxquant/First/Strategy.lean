import Fxquant.Engine.BarCollector
import Fxquant.Engine.Book

/-!
# The first strategy

`first_strategy.h` and `first_strategy.cpp`, with the part of the engine's callbacks that stores a
bar before the strategy sees it. Bars of one minute draw the two lines, ticks that cross a line
open an order, and while an order is open, ticks only check whether it closes.
-/

namespace Fxquant.First

open FxEngine Feeder

structure Params where
  volume : ℚ
  sl : ℤ
  tp : ℤ
  minCandle : ℤ
  linesDist : ℤ
  maxTradesPerCandle : ℤ
  deriving DecidableEq, Repr

/-- The test of the constructor. -/
def Params.isValid (p : Params) : Bool :=
  !(decide (p.volume < 1 / 100) || decide (p.sl < 0) || decide (p.tp < 0) ||
    decide (p.minCandle ≤ 0) || decide (p.linesDist ≤ 0) || decide (p.maxTradesPerCandle ≤ 0))

theorem Params.isValid_iff {p : Params} : p.isValid = true ↔
    1 / 100 ≤ p.volume ∧ 0 ≤ p.sl ∧ 0 ≤ p.tp ∧ 0 < p.minCandle ∧ 0 < p.linesDist ∧
      0 < p.maxTradesPerCandle := by
  simp only [Params.isValid, Bool.not_eq_true', Bool.or_eq_false_iff, decide_eq_false_iff_not,
    not_lt, not_le, and_assoc]

structure Env where
  symbol : Symbol
  params : Params
  accepted : params.isValid = true

def Env.point (env : Env) : ℚ := symbolPip env.symbol

/-- A `first_strategy` on its engine, with the bars that the engine has collected. -/
structure State where
  engine : FxEngine := {}
  bars : BarCollector := {}
  tradeOpensInCurrentBar : ℤ := 0
  buyLine : ℚ := 0
  sellLine : ℚ := 0

def start (autoOrderId : ℕ) : State := { engine := { autoOrderId } }

namespace State

/-- `order_send<T>` of this strategy: no event is pushed. -/
def orderSend (env : Env) (s : State) (type : OrderType) (tick : TickData) (openPrice : ℚ)
    (sl tp : ℤ) : State × Bool :=
  let id := s.engine.autoOrderId + 1
  match Order.ofPoints type env.symbol env.params.volume openPrice sl tp id with
  | none => ({ s with engine := { s.engine with autoOrderId := id } }, false)
  | some o =>
    let o := (o.openAt tick).getD o
    let optr := s.engine.nextPtr
    let e := { s.engine with autoOrderId := id }.allocate o
    ({ s with engine := { e with openedOrders := e.openedOrders ++ [optr] } }, true)

def closeFirst (tick : TickData) (e : FxEngine) : List Ptr → FxEngine × Bool
  | [] => (e, false)
  | optr :: rest =>
    match (e.heap optr).closeAt tick with
    | some o => (e.recordClosed optr o, true)
    | none => closeFirst tick e rest

def checkOrdersClosing (s : State) (tick : TickData) : State × Bool :=
  let ready := fun optr => (s.engine.heap optr).checkClose tick
  let closingOrders := s.engine.openedOrders.filter ready
  let (engine, closed) := closeFirst tick
    { s.engine with openedOrders := s.engine.openedOrders.filter fun optr => !ready optr }
    closingOrders
  ({ s with engine }, closed)

def checkTrades (s : State) (tick : TickData) : State × Bool := ((s.checkOrdersClosing tick).1, false)

def onTick (env : Env) (s : State) (tick : TickData) : State :=
  if s.buyLine ≤ 0 ∨ s.sellLine ≤ 0 then s
  else if s.engine.openedOrders ≠ [] then (s.checkTrades tick).1
  else if env.params.maxTradesPerCandle ≤ s.tradeOpensInCurrentBar then s
  else
    let sl := env.params.linesDist.tdiv 2
    let tp := sl
    let (s, orderSendSuccess) :=
      if s.buyLine ≤ tick.bid then s.orderSend env .buyOrder tick tick.ask sl tp
      else if tick.bid ≤ s.sellLine then s.orderSend env .sellOrder tick tick.bid sl tp
      else (s, false)
    if orderSendSuccess then { s with tradeOpensInCurrentBar := s.tradeOpensInCurrentBar + 1 } else s

/-- The answer false is `none`. -/
def getBars (s : State) (timeFrame many : ℕ) : Option (List BarData) :=
  match s.bars.getLastBars timeFrame many with
  | some [] => none
  | some latestBars => some latestBars
  | none => none

/-- A negative `bar` counts from the end. `none` is an index out of range: the exception, or the
access past the end for an index that is the size. -/
def isBarLegal (env : Env) (bar : ℤ) (latestBars : List BarData) : Option Bool :=
  let index := if bar < 0 then latestBars.length + bar else bar
  if index < 0 then none
  else latestBars[index.toNat]?.map fun b =>
    let candleSize := (b.h - b.l) / env.point
    if candleSize ≤ env.params.minCandle then false else true

def onBar (env : Env) (s : State) (timeFrame : ℕ) (_bar : BarData) : State :=
  if timeFrame ≠ 1 then s
  else
    match s.getBars 1 2 with
    | none => s
    | some latestBars =>
      match isBarLegal env (-1) latestBars, latestBars.head? with
      | some true, _ => { s with buyLine := 0, sellLine := 0 }
      | some false, some first =>
        let buyLine := first.o + env.params.linesDist * env.point / 2
        { s with
          buyLine
          sellLine := buyLine - env.params.linesDist * env.point
          tradeOpensInCurrentBar := 0 }
      | _, _ => s

end State

/-- What the engine passes on to its strategy. -/
inductive Event where
  | tick (tick : TickData)
  | bar (timeFrame : ℕ) (bar : BarData)
  deriving DecidableEq, Repr

/-- The engine's `on_tick` and `on_bar`; a bar is stored before the strategy sees it. -/
def step (env : Env) (s : State) : Event → State
  | .tick tick => s.onTick env tick
  | .bar timeFrame bar => { s with bars := s.bars.putBar timeFrame bar }.onBar env timeFrame bar

end Fxquant.First
