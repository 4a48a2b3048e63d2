import Fxquant.Common.OrderCalls

/-!
# Buy and sell orders as mirror images

The two class families of `order.h` are written by hand, one as the other with the comparisons
turned round and bid and ask swapped. Here an order is reflected at a constant, every price taken
from it, and the calls on the order and on its reflection are compared.
-/

namespace Fxquant

open Doubles

def OrderType.mirror : OrderType → OrderType
  | .buyOrder => .sellOrder
  | .buyLimitOrder => .sellLimitOrder
  | .buyStopOrder => .sellStopOrder
  | .sellOrder => .buyOrder
  | .sellLimitOrder => .buyLimitOrder
  | .sellStopOrder => .buyStopOrder

@[simp] theorem OrderType.isBuy_mirror (type : OrderType) : type.mirror.isBuy = !type.isBuy := by
  cases type <;> rfl

def TickData.reflect (C : ℚ) (tick : TickData) : TickData where
  bid := C - tick.ask
  ask := C - tick.bid
  time := tick.time

/-- What is not a number or not there is so in the mirror too. -/
def reflectPrice (C : ℚ) : Double → Double
  | .fin a => .fin (C - a)
  | x => x

theorem reflectPrice_le {x y : Double} (C : ℚ) (hx : ∃ a, x = .fin a) (hy : ∃ a, y = .fin a) :
    (reflectPrice C x).le (reflectPrice C y) = y.le x := by
  obtain ⟨a, rfl⟩ := hx
  obtain ⟨b, rfl⟩ := hy
  simp only [reflectPrice, Double.le, sub_le_sub_iff_left]

theorem reflectPrice_sub {x y : Double} (C : ℚ) (hx : ∃ a, x = .fin a) (hy : ∃ a, y = .fin a) :
    (reflectPrice C x).sub (reflectPrice C y) = y.sub x := by
  obtain ⟨a, rfl⟩ := hx
  obtain ⟨b, rfl⟩ := hy
  simp only [reflectPrice, Double.sub, Double.neg, Double.add, Double.fin.injEq]
  ring

theorem reflectPrice_ne_undefinedValue (C : ℚ) (x : Double) :
    reflectPrice C x ≠ undefinedValue ↔ x ≠ undefinedValue := by
  cases x <;> simp [reflectPrice, undefinedValue]

/-- A level above a price is reflected to one below it. -/
theorem reflectPrice_level {x level : Double} (C : ℚ) (hx : ∃ a, x = .fin a)
    (hLevel : ∃ v, level = orUndefined v) :
    (decide (reflectPrice C level ≠ undefinedValue) &&
        (reflectPrice C x).le (reflectPrice C level)) =
      (decide (level ≠ undefinedValue) && level.le x) ∧
    (decide (reflectPrice C level ≠ undefinedValue) &&
        (reflectPrice C level).le (reflectPrice C x)) =
      (decide (level ≠ undefinedValue) && x.le level) := by
  obtain ⟨v, rfl⟩ := hLevel
  cases v with
  | none => exact ⟨rfl, rfl⟩
  | some b =>
    have hFin : ∃ a, orUndefined (some b) = .fin a := ⟨b, rfl⟩
    rw [reflectPrice_le C hx hFin, reflectPrice_le C hFin hx]
    exact ⟨rfl, rfl⟩

namespace RawOrder

variable {C : ℚ} {id' : ℕ} {o : RawOrder}

/-- The reflection of an order, under an id of its own. -/
def mirror (C : ℚ) (id' : ℕ) (o : RawOrder) : RawOrder where
  type := o.type.mirror
  id := id'
  symbol := o.symbol
  volume := o.volume
  orderPrice := reflectPrice C o.orderPrice
  openPrice := reflectPrice C o.openPrice
  closePrice := reflectPrice C o.closePrice
  stopLoss := reflectPrice C o.stopLoss
  takeProfit := reflectPrice C o.takeProfit
  openTime := o.openTime
  closeTime := o.closeTime
  openTick := o.openTick.map (TickData.reflect C)
  closeTick := o.closeTick.map (TickData.reflect C)

/-- The order price is a positive number on both sides of the mirror, and so are the other prices
finite or undefined. -/
structure Reflectable (C : ℚ) (o : RawOrder) : Prop where
  orderPrice : ∃ p, o.orderPrice = .fin p ∧ 0 < p ∧ 0 < C - p
  openPrice : ∃ v, o.openPrice = orUndefined v
  closePrice : ∃ v, o.closePrice = orUndefined v
  stopLoss : ∃ v, o.stopLoss = orUndefined v
  takeProfit : ∃ v, o.takeProfit = orUndefined v

/-! ### What an order answers -/

theorem mirror_isOpened : (o.mirror C id').isOpened = o.isOpened := by
  simp only [isOpened, mirror, reflectPrice_ne_undefinedValue]

theorem mirror_isClosed : (o.mirror C id').isClosed = o.isClosed := by
  simp only [isClosed, mirror, reflectPrice_ne_undefinedValue]

theorem mirror_isBuy : (o.mirror C id').type.isBuy = !o.type.isBuy := o.type.isBuy_mirror

theorem Reflectable.stopLoss_level (h : Reflectable C o) (id' : ℕ) {x : Double}
    (hx : ∃ a, x = .fin a) :
    ((o.mirror C id').hasStopLoss && (reflectPrice C x).le (o.mirror C id').stopLoss) =
      (o.hasStopLoss && o.stopLoss.le x) ∧
    ((o.mirror C id').hasStopLoss && (o.mirror C id').stopLoss.le (reflectPrice C x)) =
      (o.hasStopLoss && x.le o.stopLoss) :=
  reflectPrice_level C hx h.stopLoss

theorem Reflectable.takeProfit_level (h : Reflectable C o) (id' : ℕ) {x : Double}
    (hx : ∃ a, x = .fin a) :
    ((o.mirror C id').hasTakeProfit && (reflectPrice C x).le (o.mirror C id').takeProfit) =
      (o.hasTakeProfit && o.takeProfit.le x) ∧
    ((o.mirror C id').hasTakeProfit && (o.mirror C id').takeProfit.le (reflectPrice C x)) =
      (o.hasTakeProfit && x.le o.takeProfit) :=
  reflectPrice_level C hx h.takeProfit

theorem Reflectable.isValid (h : Reflectable C o) : (o.mirror C id').isValid = o.isValid := by
  obtain ⟨p, hPrice, hPos, hPos'⟩ := h.orderPrice
  have hPrice' : (o.mirror C id').orderPrice = reflectPrice C o.orderPrice := rfl
  have hDefined : (reflectPrice C o.orderPrice = undefinedValue) = (o.orderPrice = undefinedValue) :=
    propext (not_iff_not.mp (reflectPrice_ne_undefinedValue C o.orderPrice))
  have hPositive : (reflectPrice C o.orderPrice).le (.fin 0) = o.orderPrice.le (.fin 0) := by
    simp only [hPrice, reflectPrice, Double.le, decide_eq_decide]
    exact iff_of_false hPos'.not_ge hPos.not_ge
  obtain ⟨hLeStopLoss, hStopLossLe⟩ := h.stopLoss_level id' ⟨p, hPrice⟩
  obtain ⟨hLeTakeProfit, hTakeProfitLe⟩ := h.takeProfit_level id' ⟨p, hPrice⟩
  rw [RawOrder.isValid, RawOrder.isValid, mirror_isBuy, hPrice', hLeStopLoss, hStopLossLe,
    hLeTakeProfit, hTakeProfitLe, hPositive]
  simp only [hDefined]
  cases o.type.isBuy <;> rfl

theorem Reflectable.checkOpen (h : Reflectable C o) (tick : TickData) :
    (o.mirror C id').checkOpen (tick.reflect C) = o.checkOpen tick := by
  obtain ⟨p, hPrice, _⟩ := h.orderPrice
  have hLe : ∀ a, (Double.fin (C - a)).le (o.mirror C id').orderPrice = o.orderPrice.le (.fin a) :=
    fun a => reflectPrice_le C ⟨a, rfl⟩ ⟨p, hPrice⟩
  have hGe : ∀ a, (o.mirror C id').orderPrice.le (.fin (C - a)) = (Double.fin a).le o.orderPrice :=
    fun a => reflectPrice_le C ⟨p, hPrice⟩ ⟨a, rfl⟩
  have hType : (o.mirror C id').type = o.type.mirror := rfl
  rw [RawOrder.checkOpen, RawOrder.checkOpen, mirror_isOpened, hType]
  cases o.type with
  | buyOrder => rfl
  | sellOrder => rfl
  | buyLimitOrder => exact congrArg (!o.isOpened && ·) (hGe tick.ask)
  | buyStopOrder => exact congrArg (!o.isOpened && ·) (hLe tick.ask)
  | sellLimitOrder => exact congrArg (!o.isOpened && ·) (hLe tick.bid)
  | sellStopOrder => exact congrArg (!o.isOpened && ·) (hGe tick.bid)

theorem Reflectable.checkClose (h : Reflectable C o) (tick : TickData) :
    (o.mirror C id').checkClose (tick.reflect C) = o.checkClose tick := by
  have hBid : Double.fin (tick.reflect C).bid = reflectPrice C (.fin tick.ask) := rfl
  have hAsk : Double.fin (tick.reflect C).ask = reflectPrice C (.fin tick.bid) := rfl
  rw [RawOrder.checkClose, RawOrder.checkClose, mirror_isOpened, mirror_isClosed, mirror_isBuy, hBid,
    hAsk, (h.stopLoss_level id' ⟨tick.ask, rfl⟩).1, (h.stopLoss_level id' ⟨tick.bid, rfl⟩).2,
    (h.takeProfit_level id' ⟨tick.bid, rfl⟩).1, (h.takeProfit_level id' ⟨tick.ask, rfl⟩).2]
  cases o.type.isBuy <;> rfl

/-! ### Opening and closing -/

theorem Reflectable.openAt (h : Reflectable C o) (tick : TickData) :
    (o.mirror C id').openAt (tick.reflect C) =
      ((o.openAt tick).1.mirror C id', (o.openAt tick).2) := by
  rw [RawOrder.openAt, RawOrder.openAt, h.checkOpen, mirror_isBuy]
  split
  · cases o.type.isBuy <;> rfl
  · rfl

theorem mirror_closeAt (o : RawOrder) (tick : TickData) :
    (o.mirror C id').closeAt (tick.reflect C) =
      ((o.closeAt tick).1.mirror C id', (o.closeAt tick).2) := by
  rw [closeAt, closeAt, mirror_isOpened, mirror_isClosed, mirror_isBuy]
  split
  · cases o.type.isBuy <;> rfl
  · rfl

theorem Reflectable.step (h : Reflectable C o) {c : Call} (hc : c.isLevel = false) :
    Reflectable C (o.step c) := by
  rw [RawOrder.step]
  rcases o.call_spec c with hFails | ⟨tick, price, _, _, hCall⟩ |
    ⟨tick, price, _, _, _, hCall⟩ | ⟨stopLoss, takeProfit, hLevel, _⟩
  · rw [hFails]
    exact h
  · rw [hCall]
    exact ⟨h.orderPrice, ⟨some price, rfl⟩, h.closePrice, h.stopLoss, h.takeProfit⟩
  · rw [hCall]
    exact ⟨h.orderPrice, h.openPrice, ⟨some price, rfl⟩, h.stopLoss, h.takeProfit⟩
  · rw [hc] at hLevel
    contradiction

/-! ### Profits -/

theorem exists_fin_of_defined {x : Double} (h : ∃ v, x = orUndefined v) (hx : x ≠ undefinedValue) :
    ∃ a, x = .fin a := by
  obtain ⟨v, rfl⟩ := h
  cases v with
  | none => exact absurd rfl hx
  | some a => exact ⟨a, rfl⟩

/-- As long as an order is not opened its profit is an infinity, of another sign in the mirror. -/
theorem Reflectable.profitAt (h : Reflectable C o) (hOpened : o.isOpened = true) (tick : TickData) :
    (o.mirror C id').profitAt (tick.reflect C) = o.profitAt tick := by
  have hOpen := exists_fin_of_defined h.openPrice (of_decide_eq_true hOpened)
  have hBuy : (reflectPrice C (.fin tick.ask)).sub (reflectPrice C o.openPrice) =
      o.openPrice.sub (.fin tick.ask) := reflectPrice_sub C ⟨tick.ask, rfl⟩ hOpen
  have hSell : (reflectPrice C o.openPrice).sub (reflectPrice C (.fin tick.bid)) =
      (Double.fin tick.bid).sub o.openPrice := reflectPrice_sub C hOpen ⟨tick.bid, rfl⟩
  rw [RawOrder.profitAt, RawOrder.profitAt, mirror_isBuy, ← hBuy, ← hSell]
  cases o.type.isBuy <;> rfl

theorem Reflectable.profit (h : Reflectable C o) (hOpened : o.isClosed = true → o.isOpened = true) :
    (o.mirror C id').profit = o.profit := by
  rw [RawOrder.profit, RawOrder.profit, mirror_isClosed, mirror_isBuy]
  split
  · rename_i hClosed
    have hOpen := exists_fin_of_defined h.openPrice (of_decide_eq_true (hOpened hClosed))
    have hClose := exists_fin_of_defined h.closePrice (of_decide_eq_true hClosed)
    rw [← reflectPrice_sub C hOpen hClose, ← reflectPrice_sub C hClose hOpen]
    cases o.type.isBuy <;> rfl
  · rfl

/-! ### Runs -/

def Call.reflect (C : ℚ) : Call → Call
  | .openAt tick => .openAt (tick.reflect C)
  | .closeAt tick => .closeAt (tick.reflect C)
  | .setStopLoss value => .setStopLoss (reflectPrice C value)
  | .setTakeProfit value => .setTakeProfit (reflectPrice C value)
  | .resetStopLoss => .resetStopLoss
  | .resetTakeProfit => .resetTakeProfit

theorem Reflectable.step_mirror (h : Reflectable C o) {c : Call} (hc : c.isLevel = false) :
    (o.mirror C id').step (c.reflect C) = (o.step c).mirror C id' := by
  cases c with
  | openAt tick => exact congrArg Prod.fst (h.openAt tick)
  | closeAt tick => exact congrArg Prod.fst (mirror_closeAt o tick)
  | setStopLoss value => contradiction
  | setTakeProfit value => contradiction
  | resetStopLoss => contradiction
  | resetTakeProfit => contradiction

theorem Reflectable.run (h : Reflectable C o) (id' : ℕ) {calls : List Call}
    (hCalls : ∀ c ∈ calls, c.isLevel = false) :
    Reflectable C (Runs.run RawOrder.step o calls) ∧
      Runs.run RawOrder.step (o.mirror C id') (calls.map (Call.reflect C)) =
        (Runs.run RawOrder.step o calls).mirror C id' := by
  refine Runs.run_simulates (fun s t => Reflectable C s ∧ t = s.mirror C id') (Call.reflect C)
    ⟨h, rfl⟩ ?_
  rintro s _ ⟨hs, rfl⟩ c hc
  exact ⟨hs.step (hCalls c hc), hs.step_mirror (hCalls c hc)⟩

/-- Two orders that answer alike, the one at every tick and the other at its reflection. -/
structure MirrorImages (C : ℚ) (o o' : RawOrder) : Prop where
  isValid : o'.isValid = o.isValid
  isOpened : o'.isOpened = o.isOpened
  checkOpen : ∀ tick, o'.checkOpen (tick.reflect C) = o.checkOpen tick
  openAt : ∀ tick, (o'.openAt (tick.reflect C)).2 = (o.openAt tick).2
  checkClose : ∀ tick, o'.checkClose (tick.reflect C) = o.checkClose tick
  closeAt : ∀ tick, (o'.closeAt (tick.reflect C)).2 = (o.closeAt tick).2
  profitAt : o.isOpened = true → ∀ tick, o'.profitAt (tick.reflect C) = o.profitAt tick
  profit : o'.profit = o.profit

theorem Reflectable.mirrorImages (h : Reflectable C o) (id' : ℕ)
    (hOpened : o.isClosed = true → o.isOpened = true) :
    MirrorImages C o (o.mirror C id') := by
  constructor
  · exact h.isValid
  · exact mirror_isOpened
  · exact h.checkOpen
  · intro tick
    rw [h.openAt]
  · exact h.checkClose
  · intro tick
    rw [mirror_closeAt]
  · exact h.profitAt
  · exact h.profit hOpened

theorem reflectPrice_orUndefined (C : ℚ) (v : Option ℚ) :
    reflectPrice C (orUndefined v) = orUndefined (v.map (C - ·)) := by
  cases v <;> rfl

theorem isSome_ofPrices (type : OrderType) (symbol : Symbol)
    (volume orderPrice stopLoss takeProfit : Double) (id : ℕ) :
    (ofPrices type symbol volume orderPrice stopLoss takeProfit id).isSome =
      RawOrder.isValid { type, id, symbol, volume, orderPrice, stopLoss, takeProfit } := by
  rw [ofPrices]
  split
  · rename_i hValid
    exact hValid.symm
  · rename_i hInvalid
    exact (Bool.eq_false_of_not_eq_true hInvalid).symm

/-- The orders of each pair are accepted together, and behave as mirror images whatever ticks they
are opened and closed on. -/
theorem orders_mirror (C : ℚ) (type : OrderType) (symbol : Symbol) (volume : Double) (p : ℚ)
    (stopLoss takeProfit : Option ℚ) (id id' : ℕ) (hPrice : 0 < p) (hPrice' : 0 < C - p) :
    (ofPrices type.mirror symbol volume (.fin (C - p)) (orUndefined (stopLoss.map (C - ·)))
        (orUndefined (takeProfit.map (C - ·))) id').isSome =
      (ofPrices type symbol volume (.fin p) (orUndefined stopLoss) (orUndefined takeProfit)
        id).isSome ∧
    ∀ o o', ofPrices type symbol volume (.fin p) (orUndefined stopLoss) (orUndefined takeProfit) id =
        some o →
      ofPrices type.mirror symbol volume (.fin (C - p)) (orUndefined (stopLoss.map (C - ·)))
        (orUndefined (takeProfit.map (C - ·))) id' = some o' →
      ∀ calls, (∀ c ∈ calls, c.isLevel = false) →
        MirrorImages C (Runs.run step o calls) (Runs.run step o' (calls.map (Call.reflect C))) := by
  rw [← reflectPrice_orUndefined, ← reflectPrice_orUndefined]
  have hReflectable : Reflectable C
      { type, id, symbol, volume, orderPrice := .fin p, stopLoss := orUndefined stopLoss,
        takeProfit := orUndefined takeProfit } :=
    ⟨⟨p, rfl, hPrice, hPrice'⟩, ⟨none, rfl⟩, ⟨none, rfl⟩, ⟨stopLoss, rfl⟩, ⟨takeProfit, rfl⟩⟩
  constructor
  · rw [isSome_ofPrices, isSome_ofPrices]
    exact hReflectable.isValid
  · intro o o' ho ho' calls hCalls
    have hSound := sound_run (.inl ⟨_, _, _, _, _, _, _, ho⟩) calls
    obtain ⟨rfl, _⟩ := ofPrices_eq_some ho
    obtain ⟨rfl, _⟩ := ofPrices_eq_some ho'
    obtain ⟨hRun, hMirror⟩ := hReflectable.run id' hCalls
    have hImages := hRun.mirrorImages id' hSound.isOpened
    rw [← hMirror] at hImages
    exact hImages

/-- A limit order below the market. -/
def limitAtOne : RawOrder where
  type := .buyLimitOrder
  id := 1
  symbol := .eurusd
  volume := .fin 1
  orderPrice := .fin 1
  stopLoss := undefinedValue
  takeProfit := .fin 2

theorem limitAtOne_mirrored :
    MirrorImages 3
      (Runs.run step limitAtOne [.openAt ⟨2, 2, 0⟩, .openAt ⟨1 / 2, 1, 1⟩, .closeAt ⟨3 / 2, 2, 2⟩])
      (Runs.run step (limitAtOne.mirror 3 2)
        ([.openAt ⟨2, 2, 0⟩, .openAt ⟨1 / 2, 1, 1⟩, .closeAt ⟨3 / 2, 2, 2⟩].map (Call.reflect 3))) :=
  (orders_mirror 3 .buyLimitOrder .eurusd (.fin 1) 1 none (some 2) 1 2 (by norm_num)
    (by norm_num)).2
    limitAtOne (limitAtOne.mirror 3 2) (by decide +kernel) (by decide +kernel) _ (by decide)

/-- Before they are opened, the profit of the buy order is minus infinity and that of the sell order
plus infinity. -/
theorem pending_profits_differ :
    ofPrices .buyLimitOrder .eurusd (.fin 1) (.fin 1) undefinedValue (.fin 2) 1 =
        some limitAtOne ∧
      ofPrices .sellLimitOrder .eurusd (.fin 1) (.fin (3 - 1)) undefinedValue (.fin (3 - 2)) 2 =
        some (limitAtOne.mirror 3 2) ∧
      (limitAtOne.openAt ⟨2, 2, 0⟩).2 = false ∧
      (limitAtOne.mirror 3 2).profitAt (TickData.reflect 3 ⟨2, 2, 0⟩) ≠
        limitAtOne.profitAt ⟨2, 2, 0⟩ := by
  decide +kernel

end RawOrder

end Fxquant
