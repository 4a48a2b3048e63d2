import Fxquant.Engine.BookInvariant
import Fxquant.Ladder.Strategy

/-!
# What each part of a tick does

One lemma for each part of `on_tick`: the figures, the opening of orders, the check of stop
losses and take profits, the close of a cycle and the soft take profit. All of them keep the
invariant of the book.
-/

namespace Fxquant.Ladder.State

open FxEngine Doubles

/-! ### The figures -/

theorem setProfitsFrom_frame (tick : TickData) (s : State) (l : List Ptr) :
    (setProfitsFrom tick s l).engine = s.engine ∧
      (setProfitsFrom tick s l).cycleProfit = s.cycleProfit ∧
      (setProfitsFrom tick s l).nextData = s.nextData ∧
      (∃ equity, (setProfitsFrom tick s l).compute = { s.compute with equity := equity }) ∧
      ∀ d, ((setProfitsFrom tick s l).customData d).nearestLvl = (s.customData d).nearestLvl := by
  induction l generalizing s with
  | nil => exact ⟨rfl, rfl, rfl, ⟨s.compute.equity, rfl⟩, fun _ => rfl⟩
  | cons p l ih =>
    rw [setProfitsFrom]
    cases hData : (s.engine.heap p).customData with
    | none => exact ih s
    | some cd =>
      obtain ⟨hEngine, hCycle, hNext, ⟨equity, hCompute⟩, hLevel⟩ := ih { s with
        customData := Function.update s.customData cd
          { s.customData cd with computedProfit := (s.engine.heap p).profitAt tick }
        compute := { s.compute with
          equity := s.compute.equity + (s.engine.heap p).profitAt tick } }
      refine ⟨hEngine, hCycle, hNext, ⟨equity, hCompute⟩, fun d => ?_⟩
      rw [hLevel d]
      by_cases hd : d = cd
      · subst hd
        simp
      · simp [Function.update_of_ne hd]

/-- The figures of a tick, before the profits of the open and closed orders are added up. -/
def figures (env : Env) (s : State) (tick : TickData) : Compute :=
  ((((((s.compute.resetValues tick).setOpenTradesMinmaxAndRange env s.engine tick).setTopHalf
    ).setSectionIAmIn env).setDynamicSectionRisk env).setNearestLevel env).loopOpenedOrders s.engine

/-- The figures of a tick with the profits of the open orders, and then those of the closed ones. -/
theorem initializeCompute_loops (env : Env) (s : State) (tick : TickData) :
    (s.initializeCompute env tick).compute =
      (setProfitsFrom tick { s with compute := s.figures env tick } s.engine.openedOrders
        ).compute.loopClosedOrders (setProfitsFrom tick { s with compute := s.figures env tick }
          s.engine.openedOrders).engine := rfl

theorem initializeCompute_frame (env : Env) (s : State) (tick : TickData) :
    (s.initializeCompute env tick).engine = s.engine ∧
      (s.initializeCompute env tick).cycleProfit = s.cycleProfit ∧
      (s.initializeCompute env tick).nextData = s.nextData ∧
      (∃ equity closeProfit, (s.initializeCompute env tick).compute =
        { s.figures env tick with equity := equity, closeProfit := closeProfit }) ∧
      ∀ d, ((s.initializeCompute env tick).customData d).nearestLvl =
        (s.customData d).nearestLvl := by
  obtain ⟨hEngine, hCycle, hNext, ⟨equity, hCompute⟩, hLevel⟩ :=
    setProfitsFrom_frame tick { s with compute := s.figures env tick } s.engine.openedOrders
  refine ⟨hEngine, hCycle, hNext, ⟨equity, ?_⟩, hLevel⟩
  rw [initializeCompute_loops, hCompute]
  exact ⟨_, rfl⟩

@[simp] theorem initializeCompute_engine (env : Env) (s : State) (tick : TickData) :
    (s.initializeCompute env tick).engine = s.engine := (initializeCompute_frame env s tick).1

@[simp] theorem initializeCompute_cycleProfit (env : Env) (s : State) (tick : TickData) :
    (s.initializeCompute env tick).cycleProfit = s.cycleProfit :=
  (initializeCompute_frame env s tick).2.1

/-- The level of a tick: the grid line below its mid price, with the fraction of a point that
the mid price has. -/
def levelOf (env : Env) (tick : TickData) : ℚ :=
  rounded (tick.midPrice - rounded (Compute.levelDistance env tick.midPrice * env.roundedPoint))

theorem initializeCompute_compute (env : Env) (s : State) (tick : TickData) :
    (s.initializeCompute env tick).compute.nearestLevel = levelOf env tick ∧
      (s.initializeCompute env tick).compute.lotsExposure = Compute.exposure s.engine ∧
      (s.initializeCompute env tick).compute.dynamicSectionRisk =
        (Doubles.Double.quotient env.params.maxLotsAllowed env.params.sectionsInHalfRange).scale
          (s.initializeCompute env tick).compute.section_ ∧
      (s.initializeCompute env tick).compute.range =
        (if s.engine.openedOrders = [] then env.roundedPoint
          else roundedNormalize env.symbol
            (rounded (Compute.maxOf tick.bid (Compute.openPrices s.engine) -
              Compute.minOf tick.bid (Compute.openPrices s.engine)))) := by
  obtain ⟨_, _, _, ⟨equity, closeProfit, hCompute⟩, _⟩ := initializeCompute_frame env s tick
  obtain ⟨_, _, hRange, hSection, hRisk, hLevel⟩ := Compute.loopOpenedOrders_frame s.engine
    ((((((s.compute.resetValues tick).setOpenTradesMinmaxAndRange env s.engine tick).setTopHalf
      ).setSectionIAmIn env).setDynamicSectionRisk env).setNearestLevel env)
  rw [hCompute]
  refine ⟨hLevel, Compute.loopOpenedOrders_lotsExposure _ _ ⟨rfl, rfl⟩, ?_, hRange⟩
  change (s.figures env tick).dynamicSectionRisk = Doubles.Double.scale _ (s.figures env tick).section_
  rw [figures, hRisk, hSection]
  rfl

/-! ### Opening orders -/

def sideCount (env : Env) (s : State) (type : OrderType) : ℕ :=
  ((s.engine.openedOrders.filter (s.onLevel env s.compute.nearestLevel)).filter
    fun p => if type = .buyOrder then s.isBuy p else !s.isBuy p).length

def sideLots (env : Env) (type : OrderType) : ℚ :=
  if type = .buyOrder then env.params.volume else -env.params.volume

def sidePrice (tick : TickData) (type : OrderType) : ℚ :=
  if type = .buyOrder then tick.ask else tick.bid

@[simp] theorem sideLots_buy (env : Env) : sideLots env .buyOrder = env.params.volume := rfl

@[simp] theorem sideLots_sell (env : Env) : sideLots env .sellOrder = -env.params.volume := rfl

@[simp] theorem sidePrice_buy (tick : TickData) : sidePrice tick .buyOrder = tick.ask := rfl

@[simp] theorem sidePrice_sell (tick : TickData) : sidePrice tick .sellOrder = tick.bid := rfl

def passesTests (env : Env) (s : State) (tick : TickData) (type : OrderType) : Bool :=
  decide (|rounded (tick.midPrice - s.compute.nearestLevel)| ≤
      rounded (env.params.lvlTolerance * env.roundedPoint)) &&
    (decide ((s.sideCount env type : ℤ) < env.params.tradesPerLvl) &&
      isChangeLotsAllowed env s.compute (sideLots env type))

def sendIf (env : Env) (s : State) (tick : TickData) (type : OrderType) (b : Bool) : State :=
  if b then s.orderSend env type tick (sidePrice tick type) s.compute.nearestLevel else s

/-- Both directions are tested against the book and the figures from before either is opened. -/
theorem tryOpeningOrders_eq (env : Env) (s : State) (tick : TickData) :
    s.tryOpeningOrders env tick =
      (s.sendIf env tick .buyOrder
          (isSpreadWithinLimit env tick && s.passesTests env tick .buyOrder)).sendIf env tick
        .sellOrder (isSpreadWithinLimit env tick && s.passesTests env tick .sellOrder) := by
  have hBuys : s.sideCount env .buyOrder =
      ((s.engine.openedOrders.filter (s.onLevel env s.compute.nearestLevel)).filter s.isBuy).length :=
    rfl
  have hSells : s.sideCount env .sellOrder =
      ((s.engine.openedOrders.filter (s.onLevel env s.compute.nearestLevel)).filter
        fun p => !s.isBuy p).length := rfl
  rw [tryOpeningOrders]
  cases hSpread : isSpreadWithinLimit env tick with
  | false => simp [sendIf]
  | true =>
    by_cases hNear : |rounded (tick.midPrice - s.compute.nearestLevel)| ≤
        rounded (env.params.lvlTolerance * env.roundedPoint)
    · simp only [if_true, passesTests, hNear, decide_true, Bool.true_and, hBuys, hSells,
        sideLots_buy, sideLots_sell, sendIf, sidePrice_buy, sidePrice_sell]
      split <;> rfl
    · simp [hNear, passesTests, sendIf]

theorem bookInv_sendIf {env : Env} {s : State} {tick : TickData} {type : OrderType} {b : Bool}
    (hType : type = .buyOrder ∨ type = .sellOrder) (h : s.engine.BookInv []) :
    (s.sendIf env tick type b).engine.BookInv [] := by
  rw [sendIf]
  split
  · exact h.orderSend hType _ _ _ _ _ _ _
  · exact h

theorem bookInv_opened (env : Env) {s : State} (tick : TickData) (h : s.engine.BookInv []) :
    (s.opened env tick).engine.BookInv [] := by
  rw [opened, tryOpeningOrders_eq]
  exact bookInv_sendIf (.inr rfl) (bookInv_sendIf (.inl rfl) (by simpa using h))

/-! ### Stop losses and take profits -/

def closingOrders (s : State) (tick : TickData) : List Ptr :=
  s.engine.openedOrders.filter fun p => (s.engine.heap p).checkClose tick

def extracted (s : State) (tick : TickData) : FxEngine :=
  { s.engine with
    openedOrders := s.engine.openedOrders.filter fun p => !(s.engine.heap p).checkClose tick }

theorem bookInv_extracted {s : State} (tick : TickData) (h : s.engine.BookInv []) :
    (s.extracted tick).BookInv (s.closingOrders tick) :=
  h.takeOut (List.filter_append_perm _ _)

theorem checkOrdersClosing_of_nil {s : State} {tick : TickData} (h : s.closingOrders tick = []) :
    (s.checkOrdersClosing tick).1 = s := by
  rw [checkOrdersClosing]
  split
  · rfl
  · have hNone : ∀ p ∈ s.engine.openedOrders, (!(s.engine.heap p).checkClose tick) = true := by
      simpa [closingOrders, List.filter_eq_nil_iff] using h
    rw [closingOrders] at h
    simp only [h, closeFirst, List.filter_eq_self.mpr hNone]

/-- The first of the orders that are ready to close is closed. The others are in neither list. -/
theorem checkOrdersClosing_of_cons {s : State} {tick : TickData} {p : Ptr} {rest : List Ptr}
    (hInv : s.engine.BookInv []) (h : s.closingOrders tick = p :: rest) :
    ∃ o, (s.engine.heap p).closeAt tick = some o ∧
      (s.checkOrdersClosing tick).1 = { s with
        cycleProfit := s.cycleProfit + o.profitValue
        engine := (s.extracted tick).recordClosed p o } := by
  have hMem : p ∈ s.closingOrders tick := h ▸ List.mem_cons_self
  have hOpen : (s.engine.heap p).isOpen = true :=
    (bookInv_extracted tick hInv).isOpen p (List.mem_append_left _ hMem)
  obtain ⟨o, hClose⟩ := Order.exists_closeAt tick hOpen
  refine ⟨o, hClose, ?_⟩
  rw [checkOrdersClosing, if_neg (List.ne_nil_of_mem (List.mem_of_mem_filter hMem))]
  rw [closingOrders] at h
  simp only [h, closeFirst, hClose]
  rfl

theorem bookInv_checkOrdersClosing {s : State} (tick : TickData) (h : s.engine.BookInv []) :
    (s.checkOrdersClosing tick).1.engine.BookInv [] := by
  cases hClosing : s.closingOrders tick with
  | nil => rwa [checkOrdersClosing_of_nil hClosing]
  | cons p rest =>
    obtain ⟨o, hClose, hEq⟩ := checkOrdersClosing_of_cons h hClosing
    rw [hEq]
    have hExtracted := bookInv_extracted tick h
    rw [hClosing] at hExtracted
    exact (hExtracted.recordClosed hClose).forget

/-! ### The close of a cycle -/

theorem bookInv_closeCycle (env : Env) {s : State} (tick : TickData) (h : s.engine.BookInv []) :
    (s.closeCycle env tick).engine.BookInv [] := by
  rw [closeCycle]
  split
  · exact (h.closeAllTrades tick).1
  · exact h

theorem bookInv_checked (env : Env) {s : State} (tick : TickData) (h : s.engine.BookInv []) :
    (s.checked env tick).engine.BookInv [] :=
  bookInv_checkOrdersClosing tick (bookInv_opened env tick h)

theorem bookInv_settled (env : Env) {s : State} (tick : TickData) (h : s.engine.BookInv []) :
    (s.settled env tick).engine.BookInv [] :=
  bookInv_closeCycle env tick (bookInv_checked env tick h)

/-! ### The soft take profit -/

theorem keepBetter_foldl_mem (qualifies : Ptr → Bool) (value : Ptr → ℚ) {l : List Ptr}
    {best : Option (Ptr × ℚ)} {p : Ptr} {profit : ℚ}
    (h : l.foldl (fun best q => if qualifies q then keepBetter best q (value q) else best) best =
      some (p, profit)) :
    (p ∈ l ∧ qualifies p = true) ∨ best = some (p, profit) := by
  induction l generalizing best with
  | nil => exact .inr h
  | cons q l ih =>
    rcases ih h with ⟨hMem, hQual⟩ | hBest
    · exact .inl ⟨List.mem_cons_of_mem _ hMem, hQual⟩
    · change (if qualifies q then keepBetter best q (value q) else best) = _ at hBest
      by_cases hq : qualifies q = true
      · rw [if_pos hq] at hBest
        cases best with
        | none =>
          obtain ⟨rfl, _⟩ : q = p ∧ _ := by simpa [keepBetter] using hBest
          exact .inl ⟨List.mem_cons_self, hq⟩
        | some pair =>
          rw [keepBetter] at hBest
          split at hBest
          · obtain ⟨rfl, _⟩ : q = p ∧ _ := by simpa using hBest
            exact .inl ⟨List.mem_cons_self, hq⟩
          · exact .inr hBest
      · rw [if_neg hq] at hBest
        exact .inr hBest

theorem keepBetter_foldl_of_none (qualifies : Ptr → Bool) {value : Ptr → ℚ} {l : List Ptr} {p : Ptr}
    {profit : ℚ}
    (h : l.foldl (fun best q => if qualifies q then keepBetter best q (value q) else best) none =
      some (p, profit)) : p ∈ l ∧ qualifies p = true := by
  cases keepBetter_foldl_mem qualifies value h with
  | inl hFound => exact hFound
  | inr hNone => cases hNone

theorem findProfitableBuy_spec {env : Env} {s : State} {tick : TickData} {p : Ptr}
    (h : s.findProfitableBuy env tick = some p) :
    p ∈ s.engine.openedOrders ∧ (s.engine.heap p).type = .buyOrder := by
  obtain ⟨⟨q, profit⟩, hBest, rfl⟩ := Option.map_eq_some_iff.mp h
  obtain ⟨hMem, hQual⟩ := keepBetter_foldl_of_none
    (fun p => (s.engine.heap p).type == .buyOrder &&
      decide ((s.engine.heap p).openPriceValue ≤ tick.bid - env.params.softTp * env.point)) hBest
  rw [Bool.and_eq_true, beq_iff_eq] at hQual
  exact ⟨hMem, hQual.1⟩

theorem findProfitableSell_spec {env : Env} {s : State} {tick : TickData} {p : Ptr}
    (h : s.findProfitableSell env tick = some p) :
    p ∈ s.engine.openedOrders ∧ (s.engine.heap p).type = .sellOrder := by
  obtain ⟨⟨q, profit⟩, hBest, rfl⟩ := Option.map_eq_some_iff.mp h
  obtain ⟨hMem, hQual⟩ := keepBetter_foldl_of_none
    (fun p => (s.engine.heap p).type == .sellOrder &&
      decide (tick.ask + env.params.softTp * env.point ≤ (s.engine.heap p).openPriceValue)) hBest
  rw [Bool.and_eq_true, beq_iff_eq] at hQual
  exact ⟨hMem, hQual.1⟩

/-- Either nothing is closed, or the chosen order of the open list is, and its profit counted. -/
theorem closeIfAllowed_cases (env : Env) {s : State} (tick : TickData) (changeLots : Order → ℚ)
    {found : Option Ptr} (hInv : s.engine.BookInv [])
    (hFound : ∀ p, found = some p → p ∈ s.engine.openedOrders) :
    s.closeIfAllowed env tick changeLots found = (s, false) ∧
        (∀ p, found = some p →
          isDynamicChangeAllowed env s.compute (changeLots (s.engine.heap p)) = false) ∨
      ∃ p o, found = some p ∧ p ∈ s.engine.openedOrders ∧
        isDynamicChangeAllowed env s.compute (changeLots (s.engine.heap p)) = true ∧
        (s.engine.heap p).closeAt tick = some o ∧
        s.closeIfAllowed env tick changeLots found = ({ s with
          engine := { s.engine with
            openedOrders := s.engine.openedOrders.erase p }.recordClosed p o
          cycleProfit := s.cycleProfit + o.profitValue }, true) := by
  cases found with
  | none => exact .inl ⟨rfl, fun p hp => nomatch hp⟩
  | some p =>
    cases hAllowed : isDynamicChangeAllowed env s.compute (changeLots (s.engine.heap p)) with
    | false =>
      refine .inl ⟨by simp [closeIfAllowed, hAllowed], ?_⟩
      rintro q hq
      obtain rfl := Option.some.inj hq
      exact hAllowed
    | true =>
      have hMem := hFound p rfl
      obtain ⟨o, hClose, hEq, _⟩ := hInv.closeTrade tick hMem
      exact .inr ⟨p, o, rfl, hMem, hAllowed, hClose, by simp [closeIfAllowed, hAllowed, hEq]⟩

theorem bookInv_closeIfAllowed (env : Env) {s : State} (tick : TickData) (changeLots : Order → ℚ)
    {found : Option Ptr} (hInv : s.engine.BookInv [])
    (hFound : ∀ p, found = some p → p ∈ s.engine.openedOrders) :
    (s.closeIfAllowed env tick changeLots found).1.engine.BookInv [] := by
  rcases closeIfAllowed_cases env tick changeLots hInv hFound with
    ⟨hEq, _⟩ | ⟨p, o, _, hMem, _, hClose, hEq⟩
  · rwa [hEq]
  · rw [hEq]
    exact (hInv.takeOne hMem).recordClosed hClose

def softBuy (env : Env) (s : State) (tick : TickData) : State :=
  (s.closeIfAllowed env tick (fun o => -o.volume) (s.findProfitableBuy env tick)).1

def softSell (env : Env) (s : State) (tick : TickData) : State :=
  (s.closeIfAllowed env tick (fun o => o.volume) (s.findProfitableSell env tick)).1

theorem isSoftTpClosed_eq (env : Env) (s : State) (tick : TickData) :
    (s.isSoftTpClosed env tick).1 =
      if env.params.softTp ≤ 0 ∨ s.engine.openedOrders = [] then s
      else (s.softBuy env tick).softSell env tick := by
  rw [isSoftTpClosed]
  split <;> rfl

theorem bookInv_softBuy (env : Env) {s : State} (tick : TickData) (h : s.engine.BookInv []) :
    (s.softBuy env tick).engine.BookInv [] :=
  bookInv_closeIfAllowed env tick _ h fun _ hp => (findProfitableBuy_spec hp).1

theorem bookInv_softSell (env : Env) {s : State} (tick : TickData) (h : s.engine.BookInv []) :
    (s.softSell env tick).engine.BookInv [] :=
  bookInv_closeIfAllowed env tick _ h fun _ hp => (findProfitableSell_spec hp).1

theorem bookInv_onTick (env : Env) {s : State} (tick : TickData) (h : s.engine.BookInv []) :
    (s.onTick env tick).engine.BookInv [] := by
  rw [onTick, isSoftTpClosed_eq]
  split
  · exact bookInv_settled env tick h
  · exact bookInv_softSell env tick (bookInv_softBuy env tick (bookInv_settled env tick h))

end Fxquant.Ladder.State
