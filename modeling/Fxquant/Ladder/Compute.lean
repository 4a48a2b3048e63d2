import Fxquant.Engine.Book

/-!
# Parameters and per-tick figures of the ladder strategy

`ladder_strategy::params` with `check_params`, and `ladder_strategy_compute`, which derives the
figures of a tick from the book as it is when the tick arrives. Each setter of the source is a
function on the record of figures.
-/

namespace Fxquant.Ladder

open Doubles

structure Params where
  volume : ℚ
  sl : ℤ
  tp : ℤ
  softTp : ℤ
  step : ℤ
  lvlTolerance : ℤ
  tradesPerLvl : ℤ
  closeCycleOnProfit : ℚ
  sectionsInHalfRange : ℤ
  sectionsOffset : ℤ
  maxLotsAllowed : ℚ
  maxSpread : ℤ
  plr : ℤ
  deriving DecidableEq, Repr

def Params.checkParams (p : Params) : Bool :=
  !(decide (p.volume < 1 / 100) || decide (p.sl < 0) || decide (p.tp < 0) ||
    decide (p.softTp < 0) || decide (p.step ≤ 0) || decide (p.lvlTolerance ≤ 0) ||
    decide (p.tradesPerLvl ≤ 0) || decide (p.closeCycleOnProfit < 0) ||
    decide (p.sectionsInHalfRange < 0) || decide (p.maxLotsAllowed < 0) ||
    decide (p.maxSpread < 0))

theorem Params.checkParams_iff {p : Params} : p.checkParams = true ↔
    1 / 100 ≤ p.volume ∧ 0 ≤ p.sl ∧ 0 ≤ p.tp ∧ 0 ≤ p.softTp ∧ 0 < p.step ∧ 0 < p.lvlTolerance ∧
      0 < p.tradesPerLvl ∧ 0 ≤ p.closeCycleOnProfit ∧ 0 ≤ p.sectionsInHalfRange ∧
      0 ≤ p.maxLotsAllowed ∧ 0 ≤ p.maxSpread := by
  simp only [Params.checkParams, Bool.not_eq_true', Bool.or_eq_false_iff, decide_eq_false_iff_not,
    not_lt, not_le, and_assoc]

/-- The parameters of type `int`. -/
def Params.ints (p : Params) : List ℤ :=
  [p.sl, p.tp, p.softTp, p.step, p.lvlTolerance, p.tradesPerLvl, p.sectionsInHalfRange,
    p.sectionsOffset, p.maxSpread, p.plr]

/-- What a strategy object is constructed with: the symbol of its engine's feeder, an accepted
parameter set, and the platform's conversion of doubles outside the range of `int`. -/
structure Env where
  symbol : Symbol
  params : Params
  outOfRange : Double → ℤ
  accepted : params.checkParams = true
  inRange : ∀ n ∈ params.ints, intMin ≤ n ∧ n ≤ intMax := by decide

namespace Env

def point (env : Env) : ℚ := symbolPip env.symbol

/-- The member `point_`, a double. -/
def roundedPoint (env : Env) : ℚ := rounded env.point

def toInt (env : Env) (d : Double) : ℤ := Doubles.toInt env.outOfRange d

theorem point_pos (env : Env) : 0 < env.point := symbolPip_pos env.symbol

theorem point_cases (env : Env) : env.point = 1 / 1000 ∨ env.point = 1 / 100000 :=
  symbolPip_cases env.symbol

theorem accepted_iff (env : Env) :
    1 / 100 ≤ env.params.volume ∧ 0 ≤ env.params.sl ∧ 0 ≤ env.params.tp ∧
      0 ≤ env.params.softTp ∧ 0 < env.params.step ∧ 0 < env.params.lvlTolerance ∧
      0 < env.params.tradesPerLvl ∧ 0 ≤ env.params.closeCycleOnProfit ∧
      0 ≤ env.params.sectionsInHalfRange ∧ 0 ≤ env.params.maxLotsAllowed ∧
      0 ≤ env.params.maxSpread := Params.checkParams_iff.mp env.accepted

theorem step_range (env : Env) : intMin ≤ env.params.step ∧ env.params.step ≤ intMax :=
  env.inRange _ (by simp [Params.ints])

theorem sectionsInHalfRange_range (env : Env) :
    intMin ≤ env.params.sectionsInHalfRange ∧ env.params.sectionsInHalfRange ≤ intMax :=
  env.inRange _ (by simp [Params.ints])

theorem sectionsOffset_range (env : Env) :
    intMin ≤ env.params.sectionsOffset ∧ env.params.sectionsOffset ≤ intMax :=
  env.inRange _ (by simp [Params.ints])

theorem volume_pos (env : Env) : 0 < env.params.volume :=
  lt_of_lt_of_le (by norm_num) env.accepted_iff.1

end Env

structure CustomData where
  nearestLvl : ℚ
  computedProfit : ℚ
  deriving DecidableEq, Repr, Inhabited

structure Compute where
  rangeMin : ℚ := 0
  rangeMax : ℚ := 0
  range : ℚ := 0
  isTopHalf : Bool := false
  midPrice : ℚ := 0
  section_ : ℤ := 0
  dynamicSectionRisk : Double := .fin 0
  nearestLevel : ℚ := 0
  lotsExposure : ℚ := 0
  equity : ℚ := 0
  closeProfit : ℚ := 0
  openBuyTrades : ℕ := 0
  openSellTrades : ℕ := 0
  openBuyVolume : ℚ := 0
  openSellVolume : ℚ := 0
  deriving DecidableEq, Repr

namespace Compute

def resetValues (c : Compute) (tick : TickData) : Compute :=
  -- The members set to `undefined_value` are left out: the setters that follow in `initialize`
  -- assign all of them before they are read.
  { c with
    isTopHalf := false
    midPrice := tick.midPrice
    equity := 0
    closeProfit := 0
    openBuyTrades := 0
    openSellTrades := 0
    openBuyVolume := 0
    openSellVolume := 0 }

def openPrices (e : FxEngine) : List ℚ :=
  e.openedOrders.map fun optr => (e.heap optr).openPriceValue

/-- The ends of the range: the extreme open prices, stretched to the bid. -/
def minOf (bid : ℚ) (prices : List ℚ) : ℚ :=
  match prices with
  | [] => bid
  | price :: prices =>
    let rangeMin := prices.foldl min price
    if bid < rangeMin then bid else rangeMin

def maxOf (bid : ℚ) (prices : List ℚ) : ℚ :=
  match prices with
  | [] => bid
  | price :: prices =>
    let rangeMax := prices.foldl max price
    if rangeMax < bid then bid else rangeMax

def setOpenTradesMinmaxAndRange (env : Env) (e : FxEngine) (tick : TickData) (c : Compute) :
    Compute :=
  let rangeMin := minOf tick.bid (openPrices e)
  let rangeMax := maxOf tick.bid (openPrices e)
  { c with
    rangeMin := rangeMin
    rangeMax := rangeMax
    range := if e.openedOrders = [] then env.roundedPoint
      else roundedNormalize env.symbol (rounded (rangeMax - rangeMin)) }

def setTopHalf (c : Compute) : Compute :=
  let distanceToTop := rounded (c.rangeMax - c.midPrice)
  let distanceToBottom := rounded (c.midPrice - c.rangeMin)
  { c with isTopHalf := decide (distanceToTop < distanceToBottom) }

def setSectionIAmIn (env : Env) (c : Compute) : Compute :=
  let distanceToTop := rounded (c.rangeMax - c.midPrice)
  let distanceToBottom := rounded (c.midPrice - c.rangeMin)
  let distance := roundedNormalize env.symbol
    (if distanceToBottom < distanceToTop then distanceToBottom else distanceToTop)
  let sections := rounded (rounded (distance * env.params.sectionsInHalfRange) * 2)
  -- With a `range_` of zero the quotient is no finite double, and the conversion to `int` is the
  -- platform's affair.
  { c with
    section_ := addInt (env.toInt (Double.quotient sections c.range).rounded.floor)
      env.params.sectionsOffset }

def setDynamicSectionRisk (env : Env) (c : Compute) : Compute :=
  let c := { c with
    dynamicSectionRisk := if env.params.sectionsInHalfRange ≤ 0 then .fin env.params.maxLotsAllowed
      else c.dynamicSectionRisk }
  -- There is no `else` in the source: this assignment overwrites the one above.
  { c with
    dynamicSectionRisk := (Double.quotient env.params.maxLotsAllowed
      env.params.sectionsInHalfRange).scale c.section_ }

def levelDistance (env : Env) (midPrice : ℚ) : ℤ :=
  (env.toInt (.fin (rounded (midPrice / env.roundedPoint)))).tmod env.params.step

def setNearestLevel (env : Env) (c : Compute) : Compute :=
  let distance := levelDistance env c.midPrice
  let c := { c with
    nearestLevel := if env.params.step.tdiv 2 < distance then
        rounded (c.midPrice - rounded ((distance + env.params.step : ℤ) * env.roundedPoint))
      else c.nearestLevel }
  -- Again without an `else`: the level is always the grid line below.
  { c with nearestLevel := rounded (c.midPrice - rounded (distance * env.roundedPoint)) }

def countOrder (c : Compute) (o : Order) : Compute :=
  if o.type = .buyOrder then
    { c with openBuyTrades := c.openBuyTrades + 1, openBuyVolume := c.openBuyVolume + o.volume }
  else
    { c with openSellTrades := c.openSellTrades + 1, openSellVolume := c.openSellVolume + o.volume }

def loopOpenedOrders (e : FxEngine) (c : Compute) : Compute :=
  let c := e.openedOrders.foldl (fun c optr => c.countOrder (e.heap optr)) c
  { c with lotsExposure := c.openBuyVolume - c.openSellVolume }

def loopClosedOrders (e : FxEngine) (c : Compute) : Compute :=
  { c with
    closeProfit := e.closedOrders.foldl
      (fun closeProfit optr => closeProfit + (e.heap optr).profitValue) c.closeProfit }

/-- The lots an order adds to the exposure: buys count up, sells count down. -/
def signedVolume (o : Order) : ℚ := if o.type = .buyOrder then o.volume else -o.volume

def exposure (e : FxEngine) : ℚ := (e.openedOrders.map fun p => signedVolume (e.heap p)).sum

theorem foldl_countOrder (e : FxEngine) (l : List Ptr) (c : Compute) :
    ∃ buys sells buyVolume sellVolume,
      l.foldl (fun c p => c.countOrder (e.heap p)) c =
          { c with
            openBuyTrades := buys
            openSellTrades := sells
            openBuyVolume := buyVolume
            openSellVolume := sellVolume } ∧
        buyVolume - sellVolume = c.openBuyVolume - c.openSellVolume +
          (l.map fun p => signedVolume (e.heap p)).sum ∧
        buys + sells = c.openBuyTrades + c.openSellTrades + l.length := by
  induction l generalizing c with
  | nil => exact ⟨_, _, _, _, rfl, by simp, rfl⟩
  | cons p l ih =>
    obtain ⟨buys, sells, buyVolume, sellVolume, hFold, hSum, hCount⟩ := ih (c.countOrder (e.heap p))
    refine ⟨buys, sells, buyVolume, sellVolume, ?_, ?_, ?_⟩
    · rw [List.foldl_cons, hFold, countOrder]
      split <;> rfl
    · rw [hSum, List.map_cons, List.sum_cons, countOrder, signedVolume]
      split <;> ring
    · rw [hCount, List.length_cons, countOrder]
      split <;> ring

theorem loopOpenedOrders_frame (e : FxEngine) (c : Compute) :
    (c.loopOpenedOrders e).rangeMin = c.rangeMin ∧ (c.loopOpenedOrders e).rangeMax = c.rangeMax ∧
      (c.loopOpenedOrders e).range = c.range ∧ (c.loopOpenedOrders e).section_ = c.section_ ∧
      (c.loopOpenedOrders e).dynamicSectionRisk = c.dynamicSectionRisk ∧
      (c.loopOpenedOrders e).nearestLevel = c.nearestLevel := by
  obtain ⟨_, _, _, _, hFold, _⟩ := foldl_countOrder e e.openedOrders c
  rw [loopOpenedOrders, hFold]
  exact ⟨rfl, rfl, rfl, rfl, rfl, rfl⟩

theorem loopOpenedOrders_lotsExposure (e : FxEngine) (c : Compute)
    (h : c.openBuyVolume = 0 ∧ c.openSellVolume = 0) :
    (c.loopOpenedOrders e).lotsExposure = exposure e := by
  obtain ⟨_, _, _, _, hFold, hSum, _⟩ := foldl_countOrder e e.openedOrders c
  rw [loopOpenedOrders, hFold]
  rw [h.1, h.2, sub_self, zero_add] at hSum
  exact hSum

theorem loopOpenedOrders_profits (e : FxEngine) (c : Compute) :
    (c.loopOpenedOrders e).equity = c.equity ∧ (c.loopOpenedOrders e).closeProfit = c.closeProfit := by
  obtain ⟨_, _, _, _, hFold, _⟩ := foldl_countOrder e e.openedOrders c
  rw [loopOpenedOrders, hFold]
  exact ⟨rfl, rfl⟩

theorem loopOpenedOrders_trades (e : FxEngine) (c : Compute)
    (h : c.openBuyTrades = 0 ∧ c.openSellTrades = 0) :
    (c.loopOpenedOrders e).openBuyTrades + (c.loopOpenedOrders e).openSellTrades =
      e.openedOrders.length := by
  obtain ⟨_, _, _, _, hFold, _, hCount⟩ := foldl_countOrder e e.openedOrders c
  rw [loopOpenedOrders, hFold]
  rw [h.1, h.2, Nat.zero_add] at hCount
  exact hCount

end Compute

end Fxquant.Ladder
