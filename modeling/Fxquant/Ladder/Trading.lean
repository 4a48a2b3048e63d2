import Fxquant.Ladder.Reachable

/-!
# Parameters that can trade

`check_params` accepts a stop loss and a take profit of zero points. The constructors of the
orders do not: they want the levels on either side of the order price. `order_send` catches the
exception, and the strategy goes on without an order.
-/

namespace Fxquant

theorem Order.isValid_of_terms {o o' : Order} (h : o'.terms = o.terms) : o'.isValid = o.isValid := by
  have hValid : o'.terms.isValid = o.terms.isValid := by rw [h]
  exact hValid

/-- At a price and a volume that are valid, both levels have to be off the order price. -/
theorem Order.ofPoints_isSome_iff (type : OrderType) (symbol : Symbol) {volume orderPrice : ℚ}
    (sl tp : ℤ) (id : ℕ) (hVolume : 1 / 100 ≤ volume) (hPrice : 0 < orderPrice) :
    (ofPoints type symbol volume orderPrice sl tp id).isSome = true ↔ 0 < sl ∧ 0 < tp := by
  have hPip := symbolPip_pos symbol
  have hPoints : ∀ n : ℤ, 0 < n * symbolPip symbol ↔ 0 < n := fun n => by
    rw [mul_pos_iff_of_pos_right hPip, Int.cast_pos]
  have hGuard : ¬ (orderPrice ≤ 0) ∧ ¬ (volume < 1 / 100) := ⟨not_le.mpr hPrice, not_lt.mpr hVolume⟩
  rw [ofPoints]
  cases hType : type.isBuy with
  | true =>
    simp only [if_true, ofPrices, isValid, hType, Option.isSome_ite, hGuard, decide_false,
      Bool.false_or, Option.any_some, Bool.not_eq_true', Bool.or_eq_false_iff,
      decide_eq_false_iff_not, not_le, sub_lt_self_iff, lt_add_iff_pos_right, hPoints]
  | false =>
    simp only [Bool.false_eq_true, if_false, ofPrices, isValid, hType, Option.isSome_ite, hGuard,
      decide_false, Bool.false_or, Option.any_some, Bool.not_eq_true', Bool.or_eq_false_iff,
      decide_eq_false_iff_not, not_le, sub_lt_self_iff, lt_add_iff_pos_right, hPoints]

namespace Ladder

open FxEngine

theorem newOrder_isSome_iff {env : Env} {tick : TickData} {type : OrderType}
    (hType : type = .buyOrder ∨ type = .sellOrder) (hBid : 0 < tick.bid) (hAsk : 0 < tick.ask) :
    (newOrder env tick type).isSome = true ↔ 0 < env.params.sl ∧ 0 < env.params.tp := by
  have hPrice : 0 < State.sidePrice tick type := by
    rcases hType with rfl | rfl
    · exact hAsk
    · exact hBid
  rw [newOrder, sentOrder, Option.isSome_map]
  exact Order.ofPoints_isSome_iff type env.symbol _ _ 0 env.accepted_iff.1 hPrice

theorem newOrder_isValid {env : Env} {tick : TickData} {type : OrderType} {o : Order}
    (h : newOrder env tick type = some o) : o.isValid = true := by
  obtain ⟨o', hPoints, rfl⟩ := Option.map_eq_some_iff.mp h
  obtain ⟨_, _, _, _, _, _, hValid⟩ := Order.ofPoints_eq_some hPoints
  rw [Order.openAt]
  split
  · exact hValid
  · exact hValid

theorem holdsOfTerms_isValid (env : Env) : HoldsOfTerms env fun o => o.isValid = true where
  terms hTerms hValid := by rwa [Order.isValid_of_terms hTerms]
  new {_ _ o} _ _ hNew := by
    change o.isValid = true
    exact newOrder_isValid hNew

/-! ### Whether a direction gets its order -/

/-- A new valid order of the direction is on the book. -/
def Trades (env : Env) (s : State) (tick : TickData) (type : OrderType) : Prop :=
  ∃ p ∈ (s.opened env tick).engine.openedOrders, p ∉ s.engine.openedOrders ∧
    ((s.opened env tick).engine.heap p).type = type ∧
    ((s.opened env tick).engine.heap p).isValid = true

theorem Sends.mem_openedOrders {e e' : FxEngine} {tick : TickData} {type : OrderType} {b : Bool}
    (h : Sends e e' tick type b) {p : Ptr} :
    p ∈ e'.openedOrders ↔ p ∈ e.openedOrders ∨ (b = true ∧ p = e.nextPtr) := by
  rw [h.openedOrders, List.mem_append]
  cases b <;> simp

theorem trades_iff_opens {env : Env} {s : State} {tick : TickData} {type : OrderType}
    (hType : type = .buyOrder ∨ type = .sellOrder) (hBook : s.engine.BookInv [])
    (hValid : ∀ p < s.engine.nextPtr, (s.engine.heap p).isValid = true) :
    Trades env s tick type ↔ opens env s tick type = true := by
  obtain ⟨e, hBuy, hSell⟩ := sends_opened env s tick
  have hFresh : ∀ p, s.engine.nextPtr ≤ p → p ∉ s.engine.openedOrders := fun p hLe hp =>
    (hBook.allocated p (by simp [hp])).not_ge hLe
  -- The buy of the tick is on the book when the sell is sent, and is left alone by it.
  have hBuyType : opens env s tick .buyOrder = true →
      s.engine.nextPtr < e.nextPtr ∧
        ((s.opened env tick).engine.heap s.engine.nextPtr).type = .buyOrder := by
    intro hOpens
    have hLt : s.engine.nextPtr < e.nextPtr := by
      rw [hBuy.nextPtr, if_pos hOpens]
      exact Nat.lt_succ_self _
    rw [hSell.old _ hLt]
    exact ⟨hLt, (hBuy.new hOpens).1⟩
  have hOpenedValid := (holdsOfTerms_isValid env).opened hValid tick
  constructor
  · rintro ⟨p, hp, hNew, hSide, _⟩
    rw [hSell.mem_openedOrders, hBuy.mem_openedOrders, or_iff_right hNew] at hp
    rcases hp with ⟨hOpens, rfl⟩ | ⟨hOpens, rfl⟩
    · rw [(hBuyType hOpens).2] at hSide
      rwa [← hSide]
    · rw [(hSell.new hOpens).1] at hSide
      rwa [← hSide]
  · intro hOpens
    rcases hType with rfl | rfl
    · obtain ⟨hLt, hSide⟩ := hBuyType hOpens
      have hMem : s.engine.nextPtr ∈ (s.opened env tick).engine.openedOrders :=
        hSell.mem_openedOrders.mpr (.inl (hBuy.mem_openedOrders.mpr (.inr ⟨hOpens, rfl⟩)))
      refine ⟨s.engine.nextPtr, hMem, hFresh _ le_rfl, hSide, hOpenedValid _ ?_⟩
      rw [hSell.nextPtr]
      exact Nat.lt_add_right _ hLt
    · have hMem : e.nextPtr ∈ (s.opened env tick).engine.openedOrders :=
        hSell.mem_openedOrders.mpr (.inr ⟨hOpens, rfl⟩)
      refine ⟨e.nextPtr, hMem, hFresh _ hBuy.addsOrders.le, (hSell.new hOpens).1, hOpenedValid _ ?_⟩
      rw [hSell.nextPtr, if_pos hOpens]
      exact Nat.lt_succ_self _

/-- Where the tests of a direction pass, its order is opened exactly when stop loss and take profit
are some points away. -/
theorem accepted_params_trade_iff (env : Env) (autoOrderId : ℕ) (ticks : List TickData)
    (tick : TickData) {type : OrderType} (hType : type = .buyOrder ∨ type = .sellOrder)
    (hBid : 0 < tick.bid) (hAsk : tick.bid < tick.ask)
    (hAsks : asks env (after env autoOrderId ticks) tick type = true) :
    Trades env (after env autoOrderId ticks) tick type ↔ 0 < env.params.sl ∧ 0 < env.params.tp := by
  rw [trades_iff_opens hType (inv_after env autoOrderId ticks).book
    ((holdsOfTerms_isValid env).after autoOrderId ticks), opens, sends, hAsks, Bool.true_and]
  exact newOrder_isSome_iff hType hBid (hBid.trans hAsk)

def noStopLoss : Env where
  symbol := .eurusd
  params := {
    volume := 1 / 10, sl := 0, tp := 100, softTp := 0, step := 100, lvlTolerance := 10
    tradesPerLvl := 1, closeCycleOnProfit := 0, sectionsInHalfRange := 100, sectionsOffset := 0
    maxLotsAllowed := 0, maxSpread := 0, plr := 0 }
  outOfRange := fun _ => Doubles.intMin
  accepted := by decide +kernel

/-- A stop loss of zero points is accepted, both directions pass their tests, and none trades. -/
theorem no_stop_loss_never_trades :
    asks noStopLoss (after noStopLoss 0 []) (quote 1.0000 1.0001 0) .buyOrder = true ∧
      asks noStopLoss (after noStopLoss 0 []) (quote 1.0000 1.0001 0) .sellOrder = true ∧
      ¬ Trades noStopLoss (after noStopLoss 0 []) (quote 1.0000 1.0001 0) .buyOrder ∧
      ¬ Trades noStopLoss (after noStopLoss 0 []) (quote 1.0000 1.0001 0) .sellOrder := by
  have hNone : ((after noStopLoss 0 []).opened noStopLoss (quote 1.0000 1.0001 0)).engine.openedOrders =
      [] := by decide +kernel
  refine ⟨by decide +kernel, by decide +kernel, ?_, ?_⟩
  · rintro ⟨p, hp, _⟩
    rw [hNone] at hp
    cases hp
  · rintro ⟨p, hp, _⟩
    rw [hNone] at hp
    cases hp

/-- The same parameters with a stop loss of fifty points. -/
def fiftyStopLoss : Env where
  symbol := noStopLoss.symbol
  params := { noStopLoss.params with sl := 50 }
  outOfRange := noStopLoss.outOfRange
  accepted := by decide +kernel

theorem fifty_stop_loss_buys :
    Trades fiftyStopLoss (after fiftyStopLoss 0 []) (quote 1.0000 1.0001 0) .buyOrder :=
  (accepted_params_trade_iff fiftyStopLoss 0 [] (quote 1.0000 1.0001 0) (.inl rfl)
    (by decide +kernel) (by decide +kernel) (by decide +kernel)).mpr ⟨by decide, by decide⟩

end Ladder

end Fxquant
