import Fxquant.Ladder.Steps
import Fxquant.Library.Runs

/-!
# The reachable states of the ladder strategy

The terms of an order, which are all of it but its close, never change. Opening puts orders
with the terms of the tick on the book; everything after it in a tick only closes orders.
-/

namespace Fxquant

/-- An order without its close. -/
def Order.terms (o : Order) : Order := { o with closePrice := none, closeTime := 0, closeTick := none }

theorem Order.terms_of_closeAt {o o' : Order} {tick : TickData} (h : o.closeAt tick = some o') :
    o'.terms = o.terms := by
  obtain ⟨_, rfl⟩ := Order.closeAt_eq_some_iff.mp h
  rfl

theorem Order.type_of_terms {o o' : Order} (h : o'.terms = o.terms) : o'.type = o.type := by
  have hType : o'.terms.type = o.terms.type := by rw [h]
  exact hType

theorem Order.openTick_of_terms {o o' : Order} (h : o'.terms = o.terms) :
    o'.openTick = o.openTick := by
  have hTick : o'.terms.openTick = o.terms.openTick := by rw [h]
  exact hTick

theorem Order.openTime_of_terms {o o' : Order} (h : o'.terms = o.terms) :
    o'.openTime = o.openTime := by
  have hTime : o'.terms.openTime = o.terms.openTime := by rw [h]
  exact hTime

namespace Ladder

open FxEngine

def after (env : Env) (autoOrderId : ℕ) (ticks : List TickData) : State :=
  Runs.run (State.onTick env) (start autoOrderId) ticks

theorem after_concat (env : Env) (autoOrderId : ℕ) (ticks : List TickData) (tick : TickData) :
    after env autoOrderId (ticks ++ [tick]) = (after env autoOrderId ticks).onTick env tick :=
  Runs.run_concat _ _ _

/-! ### Steps that only close orders -/

theorem terms_recordClosed {e : FxEngine} {p : Ptr} {o : Order} {tick : TickData}
    (hClose : (e.heap p).closeAt tick = some o) (q : Ptr) :
    ((e.recordClosed p o).heap q).terms = (e.heap q).terms := by
  rw [recordClosed_heap]
  by_cases hq : q = p
  · subst hq
    rw [Function.update_self]
    exact Order.terms_of_closeAt hClose
  · rw [Function.update_of_ne hq]

structure OnlyCloses (s s' : State) : Prop where
  nextPtr : s'.engine.nextPtr = s.engine.nextPtr
  terms : ∀ p, (s'.engine.heap p).terms = (s.engine.heap p).terms
  openedOrders : s'.engine.openedOrders.Sublist s.engine.openedOrders
  closedOrders : s.engine.closedOrders <+: s'.engine.closedOrders
  customData : s'.customData = s.customData
  nextData : s'.nextData = s.nextData
  compute : s'.compute = s.compute

namespace OnlyCloses

theorem refl (s : State) : OnlyCloses s s :=
  ⟨rfl, fun _ => rfl, List.Sublist.refl _, List.prefix_rfl, rfl, rfl, rfl⟩

theorem trans {s s' s'' : State} (h : OnlyCloses s s') (h' : OnlyCloses s' s'') : OnlyCloses s s'' where
  nextPtr := h'.nextPtr.trans h.nextPtr
  terms p := (h'.terms p).trans (h.terms p)
  openedOrders := h'.openedOrders.trans h.openedOrders
  closedOrders := h.closedOrders.trans h'.closedOrders
  customData := h'.customData.trans h.customData
  nextData := h'.nextData.trans h.nextData
  compute := h'.compute.trans h.compute

theorem recordClosed {s : State} {l : List Ptr} {p : Ptr} {o : Order} {tick : TickData}
    {cycleProfit : ℚ} (hSub : l.Sublist s.engine.openedOrders)
    (hClose : (s.engine.heap p).closeAt tick = some o) :
    OnlyCloses s { s with
      engine := { s.engine with openedOrders := l }.recordClosed p o
      cycleProfit := cycleProfit } where
  nextPtr := rfl
  terms q := terms_recordClosed (e := { s.engine with openedOrders := l }) hClose q
  openedOrders := hSub
  closedOrders := List.prefix_append _ _
  customData := rfl
  nextData := rfl
  compute := rfl

end OnlyCloses

theorem terms_closeEach (tick : TickData) (e : FxEngine) (l : List Ptr) (p : Ptr) :
    ((closeEach tick e l).heap p).terms = (e.heap p).terms := by
  induction l generalizing e with
  | nil => rfl
  | cons q l ih =>
    rw [closeEach]
    cases hClose : (e.heap q).closeAt tick with
    | none => exact ih e
    | some o => exact (ih (e.recordClosed q o)).trans (terms_recordClosed hClose p)

namespace State

theorem onlyCloses_checkOrdersClosing {s : State} (tick : TickData) (h : s.engine.BookInv []) :
    OnlyCloses s (s.checkOrdersClosing tick).1 := by
  cases hClosing : s.closingOrders tick with
  | nil =>
    rw [checkOrdersClosing_of_nil hClosing]
    exact .refl s
  | cons p rest =>
    obtain ⟨o, hClose, hEq⟩ := checkOrdersClosing_of_cons h hClosing
    rw [hEq]
    exact .recordClosed List.filter_sublist hClose

theorem onlyCloses_closeCycle (env : Env) {s : State} (tick : TickData) (h : s.engine.BookInv []) :
    OnlyCloses s (s.closeCycle env tick) := by
  rw [closeCycle]
  split
  · obtain ⟨_, hOpened, hClosed, hNext⟩ := h.closeAllTrades tick
    exact {
      nextPtr := hNext
      terms := fun p => terms_closeEach tick s.engine s.engine.openedOrders p
      openedOrders := by
        change (s.engine.closeAllTrades tick).openedOrders.Sublist _
        rw [hOpened]
        exact List.nil_sublist _
      closedOrders := by
        change _ <+: (s.engine.closeAllTrades tick).closedOrders
        rw [hClosed]
        exact List.prefix_append _ _
      customData := rfl
      nextData := rfl
      compute := rfl }
  · exact .refl s

theorem onlyCloses_closeIfAllowed (env : Env) {s : State} (tick : TickData)
    (changeLots : Order → ℚ) {found : Option Ptr} (hInv : s.engine.BookInv [])
    (hFound : ∀ p, found = some p → p ∈ s.engine.openedOrders) :
    OnlyCloses s (s.closeIfAllowed env tick changeLots found).1 := by
  rcases closeIfAllowed_cases env tick changeLots hInv hFound with
    ⟨hEq, _⟩ | ⟨p, o, _, _, _, hClose, hEq⟩
  · rw [hEq]
    exact .refl s
  · rw [hEq]
    exact .recordClosed List.erase_sublist hClose

theorem onlyCloses_softBuy (env : Env) {s : State} (tick : TickData) (h : s.engine.BookInv []) :
    OnlyCloses s (s.softBuy env tick) :=
  onlyCloses_closeIfAllowed env tick _ h fun _ hp => (findProfitableBuy_spec hp).1

theorem onlyCloses_softSell (env : Env) {s : State} (tick : TickData) (h : s.engine.BookInv []) :
    OnlyCloses s (s.softSell env tick) :=
  onlyCloses_closeIfAllowed env tick _ h fun _ hp => (findProfitableSell_spec hp).1

theorem onlyCloses_settled (env : Env) {s : State} (tick : TickData) (h : s.engine.BookInv []) :
    OnlyCloses (s.opened env tick) (s.settled env tick) :=
  (onlyCloses_checkOrdersClosing tick (bookInv_opened env tick h)).trans
    (onlyCloses_closeCycle env tick (bookInv_checked env tick h))

theorem onlyCloses_onTick_of_settled (env : Env) {s : State} (tick : TickData)
    (h : s.engine.BookInv []) : OnlyCloses (s.settled env tick) (s.onTick env tick) := by
  have hSettled := bookInv_settled env tick h
  rw [onTick, isSoftTpClosed_eq]
  split
  · exact .refl _
  · exact (onlyCloses_softBuy env tick hSettled).trans
      (onlyCloses_softSell env tick (bookInv_softBuy env tick hSettled))

theorem onlyCloses_onTick_of_checked (env : Env) {s : State} (tick : TickData)
    (h : s.engine.BookInv []) : OnlyCloses (s.checked env tick) (s.onTick env tick) :=
  (onlyCloses_closeCycle env tick (bookInv_checked env tick h)).trans
    (onlyCloses_onTick_of_settled env tick h)

/-- After the opening of orders, a tick only closes orders. -/
theorem onlyCloses_onTick (env : Env) {s : State} (tick : TickData) (h : s.engine.BookInv []) :
    OnlyCloses (s.opened env tick) (s.onTick env tick) :=
  (onlyCloses_settled env tick h).trans (onlyCloses_onTick_of_settled env tick h)

end State

/-! ### The terms of the orders -/

def HasTerms (env : Env) (s : State) (o : Order) : Prop :=
  (o.type = .buyOrder ∨ o.type = .sellOrder) ∧ o.symbol = env.symbol ∧
    o.volume = env.params.volume ∧
    ∃ tick cd, o.openTick = some tick ∧ o.openPrice = some (State.sidePrice tick o.type) ∧
      o.customData = some cd ∧ cd < s.nextData ∧
      (s.customData cd).nearestLvl = State.levelOf env tick

structure Inv (env : Env) (s : State) : Prop where
  book : s.engine.BookInv []
  orders : ∀ p < s.engine.nextPtr, HasTerms env s (s.engine.heap p)

theorem HasTerms.of_terms {env : Env} {s : State} {o o' : Order} (h : HasTerms env s o)
    (hTerms : o'.terms = o.terms) : HasTerms env s o' := by
  have hField : ∀ {α : Type} (f : Order → α), f o'.terms = f o.terms := fun f => congrArg f hTerms
  obtain ⟨hType, hSymbol, hVolume, tick, cd, hTick, hPrice, hData, hNext, hLevel⟩ := h
  have hType' : o'.type = o.type := hField Order.type
  refine ⟨by rwa [hType'], (hField Order.symbol).trans hSymbol, (hField Order.volume).trans hVolume,
    tick, cd, (hField Order.openTick).trans hTick, ?_, (hField Order.customData).trans hData,
    hNext, hLevel⟩
  rw [hType']
  exact (hField Order.openPrice).trans hPrice

theorem HasTerms.of_state {env : Env} {s s' : State} {o : Order} (h : HasTerms env s o)
    (hNext : s.nextData ≤ s'.nextData)
    (hLevel : ∀ d < s.nextData, (s'.customData d).nearestLvl = (s.customData d).nearestLvl) :
    HasTerms env s' o := by
  obtain ⟨hType, hSymbol, hVolume, tick, cd, hTick, hPrice, hData, hLt, hLvl⟩ := h
  exact ⟨hType, hSymbol, hVolume, tick, cd, hTick, hPrice, hData, hLt.trans_le hNext,
    (hLevel cd hLt).trans hLvl⟩

theorem Inv.of_onlyCloses {env : Env} {s s' : State} (h : Inv env s) (hCloses : OnlyCloses s s')
    (hBook : s'.engine.BookInv []) : Inv env s' where
  book := hBook
  orders p hp := by
    rw [hCloses.nextPtr] at hp
    refine ((h.orders p hp).of_terms (hCloses.terms p)).of_state hCloses.nextData.ge fun d _ => ?_
    rw [hCloses.customData]

theorem Inv.initializeCompute {env : Env} {s : State} (h : Inv env s) (tick : TickData) :
    Inv env (s.initializeCompute env tick) := by
  obtain ⟨hEngine, _, hNext, _, hLevel⟩ := State.initializeCompute_frame env s tick
  refine ⟨by rw [hEngine]; exact h.book, fun p hp => ?_⟩
  rw [hEngine] at hp ⊢
  exact (h.orders p hp).of_state hNext.ge fun d _ => hLevel d

def newOrder (env : Env) (tick : TickData) (type : OrderType) : Option Order :=
  sentOrder type env.symbol tick env.params.volume (State.sidePrice tick type) env.params.sl
    env.params.tp 0 none

/-- Whether a direction that is asked to open an order has one on the book afterwards. -/
def sends (env : Env) (tick : TickData) (type : OrderType) (b : Bool) : Bool :=
  b && (newOrder env tick type).isSome

def asks (env : Env) (s : State) (tick : TickData) (type : OrderType) : Bool :=
  State.isSpreadWithinLimit env tick && (s.initializeCompute env tick).passesTests env tick type

theorem sendIf_cases (env : Env) (s : State) (tick : TickData) (type : OrderType) (b : Bool) :
    (sends env tick type b = false ∧ ∃ n, (s.sendIf env tick type b).engine =
        { s.engine with autoOrderId := n }) ∨
      ∃ o, sends env tick type b = true ∧ newOrder env tick type = some o ∧
        (s.sendIf env tick type b).engine = s.engine.place
          { o with id := s.engine.autoOrderId + 1, customData := some s.nextData } := by
  rw [State.sendIf]
  cases b with
  | false => exact .inl ⟨rfl, s.engine.autoOrderId, rfl⟩
  | true =>
    have hEq : (s.orderSend env type tick (State.sidePrice tick type) s.compute.nearestLevel).engine =
      (s.engine.orderSend type env.symbol tick env.params.volume (State.sidePrice tick type)
        env.params.sl env.params.tp (some s.nextData)).1 := rfl
    rw [if_pos rfl, hEq, orderSend_eq, sentOrder_eq_map, ← newOrder]
    cases hNew : newOrder env tick type with
    | none => exact .inl ⟨by simp [sends, hNew], _, rfl⟩
    | some o => exact .inr ⟨o, by simp [sends, hNew], rfl, rfl⟩

theorem newOrder_spec {env : Env} {tick : TickData} {type : OrderType}
    (hType : type = .buyOrder ∨ type = .sellOrder) {o : Order}
    (h : newOrder env tick type = some o) :
    o.type = type ∧ o.symbol = env.symbol ∧ o.volume = env.params.volume ∧
      o.openTick = some tick ∧ o.isOpen = true ∧ o.openPrice = some (State.sidePrice tick type) := by
  obtain ⟨hType', _, hSymbol, hVolume, _, hTick, hOpen, hPrice⟩ := sentOrder_spec hType h
  exact ⟨hType', hSymbol, hVolume, hTick, hOpen, hPrice⟩

theorem Inv.sendIf {env : Env} {s : State} {tick : TickData} {type : OrderType} {b : Bool}
    (h : Inv env s) (hType : type = .buyOrder ∨ type = .sellOrder)
    (hLevel : s.compute.nearestLevel = State.levelOf env tick) :
    Inv env (s.sendIf env tick type b) := by
  refine ⟨State.bookInv_sendIf hType h.book, ?_⟩
  have hNext : s.nextData ≤ (s.sendIf env tick type b).nextData := by
    rw [State.sendIf]
    split
    · exact Nat.le_succ _
    · exact le_rfl
  have hData : ∀ d < s.nextData, ((s.sendIf env tick type b).customData d).nearestLvl =
      (s.customData d).nearestLvl := by
    intro d hd
    rw [State.sendIf]
    split
    · exact congrArg _ (Function.update_of_ne hd.ne _ _)
    · rfl
  rcases sendIf_cases env s tick type b with ⟨_, n, hEngine⟩ | ⟨o, hSends, hNew, hEngine⟩
  · intro p hp
    rw [hEngine] at hp ⊢
    exact (h.orders p hp).of_state hNext hData
  · intro p hp
    rw [hEngine] at hp ⊢
    rcases Nat.lt_succ_iff_lt_or_eq.mp hp with hp | rfl
    · rw [place_heap_of_lt _ hp]
      exact (h.orders p hp).of_state hNext hData
    · obtain ⟨hType', hSymbol, hVolume, hTick, _, hPrice⟩ := newOrder_spec hType hNew
      have hb : b = true := by
        rw [sends, Bool.and_eq_true] at hSends
        exact hSends.1
      rw [place_heap_self]
      refine ⟨by rwa [hType'], hSymbol, hVolume, tick, s.nextData, hTick, by rw [hType']; exact hPrice,
        rfl, ?_, ?_⟩
      · rw [State.sendIf, if_pos hb]
        exact Nat.lt_succ_self _
      · rw [State.sendIf, if_pos hb]
        have hNew : (s.orderSend env type tick (State.sidePrice tick type)
            s.compute.nearestLevel).customData s.nextData = ⟨s.compute.nearestLevel, 0⟩ :=
          Function.update_self _ _ _
        rw [hNew, hLevel]

theorem sendIf_compute (env : Env) (s : State) (tick : TickData) (type : OrderType) (b : Bool) :
    (s.sendIf env tick type b).compute = s.compute := by
  rw [State.sendIf]
  split <;> rfl

theorem opened_compute (env : Env) (s : State) (tick : TickData) :
    (s.opened env tick).compute = (s.initializeCompute env tick).compute := by
  rw [State.opened, State.tryOpeningOrders_eq, sendIf_compute, sendIf_compute]

theorem Inv.opened {env : Env} {s : State} (h : Inv env s) (tick : TickData) :
    Inv env (s.opened env tick) := by
  have hLevel := (State.initializeCompute_compute env s tick).1
  rw [State.opened, State.tryOpeningOrders_eq]
  refine ((h.initializeCompute tick).sendIf (.inl rfl) hLevel).sendIf (.inr rfl) ?_
  rwa [sendIf_compute]

theorem Inv.settled {env : Env} {s : State} (h : Inv env s) (tick : TickData) :
    Inv env (s.settled env tick) :=
  (h.opened tick).of_onlyCloses (State.onlyCloses_settled env tick h.book)
    (State.bookInv_settled env tick h.book)

theorem Inv.onTick {env : Env} {s : State} (h : Inv env s) (tick : TickData) :
    Inv env (s.onTick env tick) :=
  (h.opened tick).of_onlyCloses (State.onlyCloses_onTick env tick h.book)
    (State.bookInv_onTick env tick h.book)

/-! ### The orders of a tick -/

/-- Whether a direction has a new order on the book after the opening of orders. -/
def opens (env : Env) (s : State) (tick : TickData) (type : OrderType) : Bool :=
  sends env tick type (asks env s tick type)

theorem opened_eq (env : Env) (s : State) (tick : TickData) :
    s.opened env tick = ((s.initializeCompute env tick).sendIf env tick .buyOrder
      (asks env s tick .buyOrder)).sendIf env tick .sellOrder (asks env s tick .sellOrder) :=
  State.tryOpeningOrders_eq env _ tick

/-- What sending does to the orders: those on the book are as they were, and there is one more,
opened at the tick, if the direction sends one. -/
structure Sends (e e' : FxEngine) (tick : TickData) (type : OrderType) (b : Bool) : Prop where
  nextPtr : e'.nextPtr = e.nextPtr + if b then 1 else 0
  openedOrders : e'.openedOrders = e.openedOrders ++ if b then [e.nextPtr] else []
  old : ∀ p < e.nextPtr, e'.heap p = e.heap p
  new : b = true → (e'.heap e.nextPtr).type = type ∧ (e'.heap e.nextPtr).openTick = some tick

theorem Sends.allocated {e e' : FxEngine} {tick : TickData} {type : OrderType} {b : Bool}
    (h : Sends e e' tick type b) (hAllocated : ∀ p ∈ e.openedOrders, p < e.nextPtr) :
    ∀ p ∈ e'.openedOrders, p < e'.nextPtr := by
  intro p hp
  rw [h.openedOrders, List.mem_append] at hp
  rw [h.nextPtr]
  rcases hp with hp | hp
  · exact Nat.lt_add_right _ (hAllocated p hp)
  · cases b with
    | false => cases hp
    | true =>
      obtain rfl := List.mem_singleton.mp hp
      exact Nat.lt_succ_self _

theorem sends_sendIf (env : Env) (s : State) (tick : TickData) {type : OrderType}
    (hType : type = .buyOrder ∨ type = .sellOrder) (b : Bool) :
    Sends s.engine (s.sendIf env tick type b).engine tick type (sends env tick type b) := by
  rcases sendIf_cases env s tick type b with ⟨hSends, n, hEngine⟩ | ⟨o, hSends, hNew, hEngine⟩
  · rw [hEngine, hSends]
    exact ⟨rfl, (List.append_nil _).symm, fun _ _ => rfl, fun h => nomatch h⟩
  · obtain ⟨hType', _, _, hTick, _, _⟩ := newOrder_spec hType hNew
    rw [hEngine, hSends]
    exact ⟨rfl, rfl, fun p hp => place_heap_of_lt _ hp, fun _ => by
      rw [place_heap_self]
      exact ⟨hType', hTick⟩⟩

theorem sends_opened (env : Env) (s : State) (tick : TickData) :
    ∃ e, Sends s.engine e tick .buyOrder (opens env s tick .buyOrder) ∧
      Sends e (s.opened env tick).engine tick .sellOrder (opens env s tick .sellOrder) := by
  have hBuy := sends_sendIf env (s.initializeCompute env tick) tick (.inl rfl)
    (asks env s tick .buyOrder)
  rw [State.initializeCompute_engine] at hBuy
  rw [opened_eq]
  exact ⟨_, hBuy, sends_sendIf env _ tick (.inr rfl) _⟩

structure AddsOrders (e e' : FxEngine) (tick : TickData) : Prop where
  le : e.nextPtr ≤ e'.nextPtr
  old : ∀ p < e.nextPtr, e'.heap p = e.heap p
  new : ∀ p, e.nextPtr ≤ p → p < e'.nextPtr → (e'.heap p).openTick = some tick

theorem AddsOrders.trans {e e' e'' : FxEngine} {tick : TickData} (h : AddsOrders e e' tick)
    (h' : AddsOrders e' e'' tick) : AddsOrders e e'' tick where
  le := h.le.trans h'.le
  old p hp := (h'.old p (hp.trans_le h.le)).trans (h.old p hp)
  new p hOld hNew := by
    cases Nat.lt_or_ge p e'.nextPtr with
    | inl hp =>
      rw [h'.old p hp]
      exact h.new p hOld hp
    | inr hp =>
      exact h'.new p hp hNew

theorem Sends.addsOrders {e e' : FxEngine} {tick : TickData} {type : OrderType} {b : Bool}
    (h : Sends e e' tick type b) : AddsOrders e e' tick where
  le := by
    rw [h.nextPtr]
    exact Nat.le_add_right _ _
  old := h.old
  new p hOld hNew := by
    rw [h.nextPtr] at hNew
    cases b with
    | false => exact absurd hNew (Nat.not_lt_of_le hOld)
    | true =>
      obtain rfl := Nat.le_antisymm (Nat.le_of_lt_succ hNew) hOld
      exact (h.new rfl).2

theorem addsOrders_opened (env : Env) (s : State) (tick : TickData) :
    AddsOrders s.engine (s.opened env tick).engine tick := by
  obtain ⟨e, hBuy, hSell⟩ := sends_opened env s tick
  exact hBuy.addsOrders.trans hSell.addsOrders

theorem nextPtr_opened (env : Env) (s : State) (tick : TickData) :
    (s.opened env tick).engine.nextPtr = s.engine.nextPtr +
      (if opens env s tick .buyOrder then 1 else 0) +
        if opens env s tick .sellOrder then 1 else 0 := by
  obtain ⟨e, hBuy, hSell⟩ := sends_opened env s tick
  rw [hSell.nextPtr, hBuy.nextPtr]

def OpenedOn (P : TickData → Prop) (s : State) : Prop :=
  ∀ p < s.engine.nextPtr, ∀ tick, (s.engine.heap p).openTick = some tick → P tick

/-- A tick keeps the kind of the ticks that orders were opened on, if it opens none or is of it. -/
theorem openedOn_onTick_iff (P : TickData → Prop) {env : Env} {s : State} (tick : TickData)
    (h : s.engine.BookInv []) :
    OpenedOn P (s.onTick env tick) ↔ OpenedOn P s ∧
      (s.engine.nextPtr < (s.opened env tick).engine.nextPtr → P tick) := by
  have hCloses := State.onlyCloses_onTick env tick h
  have hAdds := addsOrders_opened env s tick
  have hOpenTick : ∀ p, ((s.onTick env tick).engine.heap p).openTick =
      ((s.opened env tick).engine.heap p).openTick := fun p => Order.openTick_of_terms (hCloses.terms p)
  constructor
  · intro hKept
    refine ⟨fun p hp t ht => hKept p ?_ t ?_, fun hNew => hKept s.engine.nextPtr ?_ tick ?_⟩
    · rw [hCloses.nextPtr]
      exact hp.trans_le hAdds.le
    · rwa [hOpenTick, hAdds.old p hp]
    · rwa [hCloses.nextPtr]
    · rw [hOpenTick]
      exact hAdds.new _ le_rfl hNew
  · rintro ⟨hKept, hNew⟩ p hp t ht
    rw [hCloses.nextPtr] at hp
    rw [hOpenTick] at ht
    cases Nat.lt_or_ge p s.engine.nextPtr with
    | inl hOld =>
      rw [hAdds.old p hOld] at ht
      exact hKept p hOld t ht
    | inr hOld =>
      rw [hAdds.new p hOld hp] at ht
      obtain rfl := Option.some.inj ht
      exact hNew (hOld.trans_lt hp)

/-! ### Runs -/

theorem inv_start (env : Env) (autoOrderId : ℕ) : Inv env (start autoOrderId) :=
  ⟨bookInv_empty autoOrderId, fun _ hp => absurd hp (Nat.not_lt_zero _)⟩

theorem inv_after (env : Env) (autoOrderId : ℕ) (ticks : List TickData) :
    Inv env (after env autoOrderId ticks) :=
  Runs.run_invariant (Inv env) (fun _ tick h => h.onTick tick) (inv_start env autoOrderId) ticks

/-- A property of orders that their close does not touch and that new orders have. -/
structure HoldsOfTerms (env : Env) (P : Order → Prop) : Prop where
  terms : ∀ {o o' : Order}, o'.terms = o.terms → P o → P o'
  new : ∀ {tick : TickData} {type : OrderType} {o : Order} (id : ℕ) (data : Option Ptr),
    newOrder env tick type = some o → P { o with id := id, customData := data }

namespace HoldsOfTerms

variable {env : Env} {P : Order → Prop} {s : State}

theorem sendIf (h : HoldsOfTerms env P) (hAll : ∀ p < s.engine.nextPtr, P (s.engine.heap p))
    (tick : TickData) (type : OrderType) (b : Bool) :
    ∀ p < (s.sendIf env tick type b).engine.nextPtr, P ((s.sendIf env tick type b).engine.heap p) := by
  rcases sendIf_cases env s tick type b with ⟨_, n, hEngine⟩ | ⟨o, _, hNew, hEngine⟩
  · rw [hEngine]
    exact hAll
  · rw [hEngine]
    intro p hp
    rcases Nat.lt_succ_iff_lt_or_eq.mp hp with hp | rfl
    · rw [place_heap_of_lt _ hp]
      exact hAll p hp
    · rw [place_heap_self]
      exact h.new _ _ hNew

theorem opened (h : HoldsOfTerms env P) (hAll : ∀ p < s.engine.nextPtr, P (s.engine.heap p))
    (tick : TickData) :
    ∀ p < (s.opened env tick).engine.nextPtr, P ((s.opened env tick).engine.heap p) := by
  have hInit : ∀ p < (s.initializeCompute env tick).engine.nextPtr,
      P ((s.initializeCompute env tick).engine.heap p) := by
    rwa [State.initializeCompute_engine]
  rw [opened_eq]
  exact h.sendIf (h.sendIf hInit tick _ _) tick _ _

theorem onTick (h : HoldsOfTerms env P) (hBook : s.engine.BookInv [])
    (hAll : ∀ p < s.engine.nextPtr, P (s.engine.heap p)) (tick : TickData) :
    ∀ p < (s.onTick env tick).engine.nextPtr, P ((s.onTick env tick).engine.heap p) := by
  have hCloses := State.onlyCloses_onTick env tick hBook
  intro p hp
  rw [hCloses.nextPtr] at hp
  exact h.terms (hCloses.terms p) (h.opened hAll tick p hp)

/-- All orders of a run have the property. -/
theorem after (h : HoldsOfTerms env P) (autoOrderId : ℕ) (ticks : List TickData) :
    ∀ p < (Ladder.after env autoOrderId ticks).engine.nextPtr,
      P ((Ladder.after env autoOrderId ticks).engine.heap p) := by
  have hRun : (Ladder.after env autoOrderId ticks).engine.BookInv [] ∧
      ∀ p < (Ladder.after env autoOrderId ticks).engine.nextPtr,
        P ((Ladder.after env autoOrderId ticks).engine.heap p) := by
    apply Runs.run_invariant fun s : State =>
      s.engine.BookInv [] ∧ ∀ p < s.engine.nextPtr, P (s.engine.heap p)
    · exact fun s tick hInv =>
        ⟨State.bookInv_onTick env tick hInv.1, h.onTick hInv.1 hInv.2 tick⟩
    · exact ⟨bookInv_empty autoOrderId, fun p hp => absurd hp (Nat.not_lt_zero p)⟩
  exact hRun.2

end HoldsOfTerms

/-- The lifecycle of the orders of a run. Open orders are opened and not closed, closed orders are
both, the lists share nothing; every order created has one opened event, no more than one
closed event and that only later, and the closed events are the closed list in its order. -/
theorem lifecycle_protocol (env : Env) (autoOrderId : ℕ) (ticks : List TickData) :
    let e := (after env autoOrderId ticks).engine
    (∀ p ∈ e.openedOrders, (e.heap p).isOpened = true ∧ (e.heap p).isClosed = false) ∧
      (∀ p ∈ e.closedOrders, (e.heap p).isOpened = true ∧ (e.heap p).isClosed = true) ∧
      e.openedOrders.Nodup ∧ e.closedOrders.Nodup ∧ e.openedOrders.Disjoint e.closedOrders ∧
      (∀ p < e.nextPtr, Lifecycle.begins e.marks p = 1) ∧
      (∀ p, Lifecycle.ends e.marks p ≤ 1) ∧
      (∀ before later p, e.marks = before ++ .ended p :: later → .begun p ∈ before) ∧
      e.closedEvents = e.closedOrders.map fun p => ⟨.closed, p, e.heap p⟩ := by
  have h := (inv_after env autoOrderId ticks).book
  have hNodup := List.nodup_append'.mp h.nodup
  refine ⟨fun p hp => ?_, h.isClosed, by simpa using hNodup.1, hNodup.2.1, by simpa using hNodup.2.2,
    fun p hp => ?_, h.ordered.ends_le_one, fun before later p hMarks => ?_, h.closedEvents⟩
  · have hOpen := h.isOpen p hp
    rw [Order.isOpen, Bool.and_eq_true, Bool.not_eq_true'] at hOpen
    exact hOpen
  · rw [h.begins p, if_pos hp]
  · exact h.ordered.begun_of_ended hMarks

end Ladder

end Fxquant
