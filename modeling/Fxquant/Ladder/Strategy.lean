import Fxquant.Ladder.Compute

/-!
# The ladder strategy

`ladder_strategy.cpp`: what one tick does to the book. `set_info_xml` and the log lines write
to the engine's info message only and are left out, and so is `on_bar`, which changes nothing.
-/

namespace Fxquant.Ladder

open Doubles

/-- A `ladder_strategy` on its engine. The `custom_data` objects that its orders point to have
a heap of their own. -/
structure State where
  engine : FxEngine := {}
  compute : Compute := {}
  customData : Ptr → CustomData := fun _ => default
  nextData : Ptr := 0
  cycleProfit : ℚ := 0

/-- A new strategy on a new engine; the order ids drawn so far are those of the process. -/
def start (autoOrderId : ℕ) : State := { engine := { autoOrderId } }

namespace State

/-- `set_profits`: the loop refreshes `computed_profit` and sums it up in `equity_`. -/
def setProfitsFrom (tick : TickData) : State → List Ptr → State
  | s, [] => s
  | s, optr :: rest =>
    match (s.engine.heap optr).customData with
    | some cd =>
      let profit := (s.engine.heap optr).profitAt tick
      setProfitsFrom tick
        { s with
          customData := Function.update s.customData cd
            { s.customData cd with computedProfit := profit }
          compute := { s.compute with equity := s.compute.equity + profit } } rest
    | none => setProfitsFrom tick s rest

def setProfits (s : State) (tick : TickData) : State :=
  setProfitsFrom tick s s.engine.openedOrders

def initializeCompute (env : Env) (s : State) (tick : TickData) : State :=
  let c := s.compute.resetValues tick
  let c := c.setOpenTradesMinmaxAndRange env s.engine tick
  let c := c.setTopHalf
  let c := c.setSectionIAmIn env
  let c := c.setDynamicSectionRisk env
  let c := c.setNearestLevel env
  let c := c.loopOpenedOrders s.engine
  let s := { s with compute := c }.setProfits tick
  { s with compute := s.compute.loopClosedOrders s.engine }

def onLevel (env : Env) (s : State) (lvl : ℚ) (optr : Ptr) : Bool :=
  match (s.engine.heap optr).customData with
  | some cd =>
    env.toInt (.fin (rounded ((s.customData cd).nearestLvl * 10000))) ==
      env.toInt (.fin (rounded (lvl * 10000)))
  -- A null pointer would be dereferenced here; the orders of this strategy all have their data.
  | none => false

def isSpreadWithinLimit (env : Env) (tick : TickData) : Bool :=
  if env.params.maxSpread ≤ 0 then true
  else decide (tick.spread ≤ env.params.maxSpread)

def isChangeLotsAllowed (env : Env) (c : Compute) (changeLots : ℚ) : Bool :=
  if env.params.maxLotsAllowed ≤ 0 then true
  else
    let currentLots := c.lotsExposure
    let newLots := currentLots + changeLots
    let newLotsAbs := |newLots|
    let allowedLots := env.params.maxLotsAllowed
    if 0 ≤ c.section_ then
      decide (newLotsAbs ≤ allowedLots) || decide (newLotsAbs < |currentLots|)
    else if c.isTopHalf then
      decide (newLots ≤ allowedLots) || decide (currentLots < newLots)
    else
      decide (newLots ≤ -allowedLots) || decide (newLots < currentLots)

def isDynamicChangeAllowed (env : Env) (c : Compute) (lotsToChange : ℚ) : Bool :=
  if env.params.maxLotsAllowed ≤ 0 then true
  else
    let allowedRisk := c.dynamicSectionRisk.abs
    let currentLots := c.lotsExposure
    let newLots := currentLots + lotsToChange
    if 0 < c.section_ then
      (Double.fin |newLots|).le allowedRisk || decide (|newLots| < |currentLots|)
    else if c.isTopHalf then
      allowedRisk.le (.fin newLots) || decide (currentLots ≤ newLots)
    else
      (Double.fin newLots).le allowedRisk.neg || decide (newLots ≤ currentLots)

def orderSend (env : Env) (s : State) (type : OrderType) (tick : TickData) (openPrice : ℚ)
    (nearestLevel : ℚ) : State :=
  let cd := s.nextData
  { s with
    customData := Function.update s.customData cd ⟨nearestLevel, 0⟩
    nextData := cd + 1
    engine := (s.engine.orderSend type env.symbol tick env.params.volume openPrice
      env.params.sl env.params.tp (some cd)).1 }

def isBuy (s : State) (optr : Ptr) : Bool := (s.engine.heap optr).type == .buyOrder

def tryOpeningOrders (env : Env) (s : State) (tick : TickData) : State :=
  if isSpreadWithinLimit env tick then
    let nearestLevel := s.compute.nearestLevel
    if |rounded (tick.midPrice - nearestLevel)| ≤
        rounded (env.params.lvlTolerance * env.roundedPoint) then
      let list := s.engine.openedOrders.filter (s.onLevel env nearestLevel)
      let buys := (list.filter s.isBuy).length
      let sells := (list.filter fun optr => !s.isBuy optr).length
      let s' :=
        if buys < env.params.tradesPerLvl && isChangeLotsAllowed env s.compute env.params.volume then
          s.orderSend env .buyOrder tick tick.ask nearestLevel
        else s
      if sells < env.params.tradesPerLvl &&
          isChangeLotsAllowed env s'.compute (-env.params.volume) then
        s'.orderSend env .sellOrder tick tick.bid nearestLevel
      else s'
    else s
  else s

/-- The loop of `check_orders_closing` over the orders it has taken out of the open list: it
returns on the first order that closes. -/
def closeFirst (tick : TickData) (s : State) : List Ptr → State × Bool
  | [] => (s, false)
  | optr :: rest =>
    match (s.engine.heap optr).closeAt tick with
    | some o =>
      ({ s with
          cycleProfit := s.cycleProfit + o.profitValue
          engine := s.engine.recordClosed optr o }, true)
    | none => closeFirst tick s rest

/-- `stable_partition`, then the orders that are ready to close leave the open list. -/
def checkOrdersClosing (s : State) (tick : TickData) : State × Bool :=
  if s.engine.openedOrders = [] then (s, false)
  else
    let ready := fun optr => (s.engine.heap optr).checkClose tick
    let closingOrders := s.engine.openedOrders.filter ready
    closeFirst tick
      { s with
        engine := { s.engine with
          openedOrders := s.engine.openedOrders.filter fun optr => !ready optr } }
      closingOrders

def isCloseOnProfit (env : Env) (s : State) (tick : TickData) : Bool :=
  if env.params.closeCycleOnProfit = 0 then false
  else
    let profit := s.cycleProfit + s.engine.getEquity tick
    decide (0 < env.params.closeCycleOnProfit) && decide (env.params.closeCycleOnProfit ≤ profit)

/-- The best order so far with its profit; `none` is the null pointer with profit -infinity. -/
def keepBetter (best : Option (Ptr × ℚ)) (optr : Ptr) (curProfit : ℚ) : Option (Ptr × ℚ) :=
  match best with
  | none => some (optr, curProfit)
  | some (result, profit) => if profit < curProfit then some (optr, curProfit) else some (result, profit)

def findProfitableBuy (env : Env) (s : State) (tick : TickData) : Option Ptr :=
  let profitablePrice := tick.bid - env.params.softTp * env.point
  let best := s.engine.openedOrders.foldl (fun best optr =>
    let o := s.engine.heap optr
    if o.type == .buyOrder && decide (o.openPriceValue ≤ profitablePrice) then
      keepBetter best optr (o.profitAt tick)
    else best) none
  best.map Prod.fst

def findProfitableSell (env : Env) (s : State) (tick : TickData) : Option Ptr :=
  let profitablePrice := tick.ask + env.params.softTp * env.point
  let best := s.engine.openedOrders.foldl (fun best optr =>
    let o := s.engine.heap optr
    if o.type == .sellOrder && decide (profitablePrice ≤ o.openPriceValue) then
      keepBetter best optr (o.openPriceValue - tick.ask)
    else best) none
  best.map Prod.fst

def closeIfAllowed (env : Env) (s : State) (tick : TickData) (changeLots : Order → ℚ) :
    Option Ptr → State × Bool
  | none => (s, false)
  | some optr =>
    if isDynamicChangeAllowed env s.compute (changeLots (s.engine.heap optr)) then
      let (engine, closed) := s.engine.closeTrade tick optr
      if closed then
        ({ s with
            engine
            cycleProfit := s.cycleProfit + (engine.heap optr).profitValue }, true)
      else ({ s with engine }, false)
    else (s, false)

def isSoftTpClosed (env : Env) (s : State) (tick : TickData) : State × Bool :=
  if env.params.softTp ≤ 0 ∨ s.engine.openedOrders = [] then (s, false)
  else
    let (s, closedBuy) := s.closeIfAllowed env tick (fun o => -o.volume) (s.findProfitableBuy env tick)
    let (s, closedSell) := s.closeIfAllowed env tick (fun o => o.volume) (s.findProfitableSell env tick)
    (s, closedBuy || closedSell)

def closeCycle (env : Env) (s : State) (tick : TickData) : State :=
  if s.isCloseOnProfit env tick then
    { s with engine := s.engine.closeAllTrades tick, cycleProfit := 0 }
  else s

/-- The state after `try_opening_orders`, when the stop losses and take profits are checked. -/
def opened (env : Env) (s : State) (tick : TickData) : State :=
  (s.initializeCompute env tick).tryOpeningOrders env tick

/-- The state when `is_close_on_profit` is asked. -/
def checked (env : Env) (s : State) (tick : TickData) : State :=
  ((s.opened env tick).checkOrdersClosing tick).1

/-- The state just before `is_soft_tp_closed`. -/
def settled (env : Env) (s : State) (tick : TickData) : State :=
  (s.checked env tick).closeCycle env tick

def onTick (env : Env) (s : State) (tick : TickData) : State :=
  ((s.settled env tick).isSoftTpClosed env tick).1

end State

end Fxquant.Ladder
