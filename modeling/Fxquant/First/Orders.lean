import Fxquant.Engine.BookInvariant
import Fxquant.First.Strategy
import Fxquant.Library.Runs

/-!
# The orders of the first strategy

An order is opened only when none is open, and the close of one is the only way out of the open
list, so there is at most one. The counter of a candle and the lists are kept together by one
invariant.
-/

namespace Fxquant

/-- What `order_send` of the first strategy does with the order it has opened. -/
def FxEngine.enlist (e : FxEngine) (o : Order) : FxEngine :=
  { e with
    autoOrderId := e.autoOrderId + 1
    heap := Function.update e.heap e.nextPtr o
    nextPtr := e.nextPtr + 1
    openedOrders := e.openedOrders ++ [e.nextPtr] }

namespace First

open FxEngine Feeder

def after (env : Env) (autoOrderId : ℕ) (events : List Event) : State :=
  Runs.run (step env) (start autoOrderId) events

namespace State

/-! ### What a step does -/

/-- The order that is sent when the bid has crossed a line, if its constructor does not throw. -/
def crossing (env : Env) (s : State) (tick : TickData) : Option Order :=
  let points := env.params.linesDist.tdiv 2
  if s.buyLine ≤ tick.bid then
    sentOrder .buyOrder env.symbol tick env.params.volume tick.ask points points
      (s.engine.autoOrderId + 1) none
  else if tick.bid ≤ s.sellLine then
    sentOrder .sellOrder env.symbol tick env.params.volume tick.bid points points
      (s.engine.autoOrderId + 1) none
  else none

/-- The order that a tick opens: the lines are drawn, no order is open, the candle has room for
another trade, and the bid has crossed a line. -/
def sent (env : Env) (s : State) (tick : TickData) : Option Order :=
  if (s.buyLine ≤ 0 ∨ s.sellLine ≤ 0) ∨ s.engine.openedOrders ≠ [] ∨
    env.params.maxTradesPerCandle ≤ s.tradeOpensInCurrentBar then none
  else s.crossing env tick

theorem customData_of_ofPoints {type : OrderType} {symbol : Symbol} {volume orderPrice : ℚ}
    {sl tp : ℤ} {id : ℕ} {o : Order} (h : Order.ofPoints type symbol volume orderPrice sl tp id = some o) :
    { o with customData := none } = o := by
  rw [Order.ofPoints] at h
  split at h
  · obtain ⟨rfl, _⟩ := Order.ofPrices_eq_some h
    rfl
  · obtain ⟨rfl, _⟩ := Order.ofPrices_eq_some h
    rfl

theorem orderSend_eq (env : Env) (s : State) (type : OrderType) (tick : TickData) (openPrice : ℚ)
    (sl tp : ℤ) :
    s.orderSend env type tick openPrice sl tp =
      match sentOrder type env.symbol tick env.params.volume openPrice sl tp
        (s.engine.autoOrderId + 1) none with
      | some o => ({ s with engine := s.engine.enlist o }, true)
      | none => ({ s with engine := { s.engine with autoOrderId := s.engine.autoOrderId + 1 } }, false) := by
  cases h : Order.ofPoints type env.symbol env.params.volume openPrice sl tp
      (s.engine.autoOrderId + 1) with
  | none => simp [orderSend, sentOrder, h]
  | some o => simp [orderSend, sentOrder, h, customData_of_ofPoints h, enlist, allocate]

/-- A tick opens an order and counts it, or it may draw an order id, or it checks the open orders. -/
theorem onTick_cases (env : Env) (s : State) (tick : TickData) :
    (∃ o, s.sent env tick = some o ∧ s.onTick env tick = { s with
        engine := s.engine.enlist o
        tradeOpensInCurrentBar := s.tradeOpensInCurrentBar + 1 }) ∨
      (s.sent env tick = none ∧ ∃ n, s.onTick env tick = { s with
        engine := { s.engine with autoOrderId := n } }) ∨
      (s.sent env tick = none ∧ s.engine.openedOrders ≠ [] ∧
        s.onTick env tick = (s.checkOrdersClosing tick).1) := by
  rw [onTick]
  by_cases hLines : s.buyLine ≤ 0 ∨ s.sellLine ≤ 0
  · rw [if_pos hLines, sent, if_pos (.inl hLines)]
    exact .inr (.inl ⟨rfl, s.engine.autoOrderId, rfl⟩)
  by_cases hOpen : s.engine.openedOrders ≠ []
  · rw [if_neg hLines, if_pos hOpen, sent, if_pos (.inr (.inl hOpen))]
    exact .inr (.inr ⟨rfl, hOpen, rfl⟩)
  by_cases hMax : env.params.maxTradesPerCandle ≤ s.tradeOpensInCurrentBar
  · rw [if_neg hLines, if_neg hOpen, if_pos hMax, sent, if_pos (.inr (.inr hMax))]
    exact .inr (.inl ⟨rfl, s.engine.autoOrderId, rfl⟩)
  have hSent : s.sent env tick = s.crossing env tick :=
    if_neg (not_or.mpr ⟨hLines, not_or.mpr ⟨hOpen, hMax⟩⟩)
  rw [if_neg hLines, if_neg hOpen, if_neg hMax, hSent, crossing]
  simp only [orderSend_eq]
  split
  · cases hOrder : sentOrder .buyOrder env.symbol tick env.params.volume tick.ask
      (env.params.linesDist.tdiv 2) (env.params.linesDist.tdiv 2) (s.engine.autoOrderId + 1) none with
    | none => exact .inr (.inl ⟨rfl, _, rfl⟩)
    | some o => exact .inl ⟨o, rfl, rfl⟩
  · split
    · cases hOrder : sentOrder .sellOrder env.symbol tick env.params.volume tick.bid
        (env.params.linesDist.tdiv 2) (env.params.linesDist.tdiv 2) (s.engine.autoOrderId + 1) none with
      | none => exact .inr (.inl ⟨rfl, _, rfl⟩)
      | some o => exact .inl ⟨o, rfl, rfl⟩
    · exact .inr (.inl ⟨rfl, s.engine.autoOrderId, rfl⟩)

theorem sent_spec {env : Env} {s : State} {tick : TickData} {o : Order}
    (h : s.sent env tick = some o) :
    o.isOpen = true ∧ s.engine.openedOrders = [] ∧
      s.tradeOpensInCurrentBar < env.params.maxTradesPerCandle ∧ 0 < s.buyLine ∧ 0 < s.sellLine := by
  rw [sent] at h
  split at h
  · cases h
  · rename_i hReady
    simp only [not_or, not_le, not_not] at hReady
    refine ⟨?_, hReady.2.1, hReady.2.2, hReady.1.1, hReady.1.2⟩
    simp only [crossing] at h
    split at h
    · exact (sentOrder_spec (.inl rfl) h).2.2.2.2.2.2.1
    · split at h
      · exact (sentOrder_spec (.inr rfl) h).2.2.2.2.2.2.1
      · cases h

/-- A bar is collected, and changes nothing but the lines and the counter. -/
theorem step_bar_eq (env : Env) (s : State) (timeFrame : ℕ) (bar : BarData) :
    ∃ counter buyLine sellLine, step env s (.bar timeFrame bar) = { s with
        bars := s.bars.putBar timeFrame bar
        tradeOpensInCurrentBar := counter
        buyLine := buyLine
        sellLine := sellLine } ∧
      (counter = 0 ∨ counter = s.tradeOpensInCurrentBar) ∧
      (timeFrame ≠ 1 → counter = s.tradeOpensInCurrentBar) := by
  rw [step, onBar]
  split
  · exact ⟨_, _, _, rfl, .inr rfl, fun _ => rfl⟩
  · rename_i hMinute
    split
    · exact ⟨_, _, _, rfl, .inr rfl, fun _ => rfl⟩
    · split
      · exact ⟨_, _, _, rfl, .inr rfl, fun _ => rfl⟩
      · exact ⟨_, _, _, rfl, .inl rfl, fun h => absurd h hMinute⟩
      · exact ⟨_, _, _, rfl, .inr rfl, fun _ => rfl⟩

/-- The check of an only open order: it stays as it is, or it is closed. -/
theorem checkOrdersClosing_of_singleton {s : State} (tick : TickData) {p : Ptr}
    (hOpened : s.engine.openedOrders = [p]) :
    (s.checkOrdersClosing tick).1 = s ∨
      ∃ o, (s.engine.heap p).closeAt tick = some o ∧ (s.checkOrdersClosing tick).1 = { s with
        engine := { s.engine with openedOrders := [] }.recordClosed p o } := by
  rw [checkOrdersClosing]
  cases hReady : (s.engine.heap p).checkClose tick with
  | false =>
    left
    have hSame : { s with engine := { s.engine with openedOrders := [p] } } = s := by
      rw [← hOpened]
    simpa [hOpened, hReady, closeFirst] using hSame
  | true =>
    right
    obtain ⟨o, hClose⟩ := Order.exists_closeAt tick (Order.isOpen_of_checkClose hReady)
    refine ⟨o, hClose, ?_⟩
    simp [hOpened, hReady, closeFirst, hClose]

end State

/-! ### The invariant -/

/-- At most one order is open, every order sent is in one of the two lists, and the only events are
those of the closed orders. -/
structure OneOpen (e : FxEngine) : Prop where
  one : e.openedOrders.length ≤ 1
  isOpen : ∀ p ∈ e.openedOrders, (e.heap p).isOpen = true
  allocated : ∀ p ∈ e.openedOrders ++ e.closedOrders, p < e.nextPtr
  once : ∀ p < e.nextPtr, e.openedOrders.count p + e.closedOrders.count p = 1
  marks : e.marks = e.closedOrders.map Lifecycle.Mark.ended

namespace OneOpen

variable {e : FxEngine}

theorem setAutoOrderId (h : OneOpen e) (n : ℕ) : OneOpen { e with autoOrderId := n } :=
  ⟨h.one, h.isOpen, h.allocated, h.once, h.marks⟩

theorem enlist (h : OneOpen e) (hNone : e.openedOrders = []) {o : Order} (hOpen : o.isOpen = true) :
    OneOpen (e.enlist o) := by
  have hOpened : (e.enlist o).openedOrders = [e.nextPtr] := by
    rw [FxEngine.enlist, hNone, List.nil_append]
  constructor
  case one => rw [hOpened, List.length_singleton]
  case isOpen =>
    intro p hp
    rw [hOpened, List.mem_singleton] at hp
    have hNew : (e.enlist o).heap e.nextPtr = o := Function.update_self _ _ _
    rw [hp, hNew]
    exact hOpen
  case allocated =>
    intro p hp
    rw [hOpened, List.singleton_append, List.mem_cons] at hp
    rcases hp with rfl | hp
    · exact Nat.lt_succ_self _
    · exact Nat.lt_succ_of_lt (h.allocated p (List.mem_append_right _ hp))
  case once =>
    intro p hp
    rw [hOpened, List.count_singleton]
    change _ + e.closedOrders.count p = 1
    rcases Nat.lt_succ_iff_lt_or_eq.mp hp with hp | rfl
    · have hOnce := h.once p hp
      rw [hNone, List.count_nil] at hOnce
      simpa [hp.ne'] using hOnce
    · have hFresh : e.nextPtr ∉ e.closedOrders := fun hMem =>
        (h.allocated _ (List.mem_append_right _ hMem)).false
      simp [List.count_eq_zero.mpr hFresh]
  case marks => exact h.marks

theorem close (h : OneOpen e) {p : Ptr} (hOpened : e.openedOrders = [p]) (o : Order) :
    OneOpen ({ e with openedOrders := [] }.recordClosed p o) := by
  constructor
  case one => exact Nat.zero_le 1
  case isOpen => exact fun q hq => nomatch hq
  case allocated =>
    intro q hq
    apply h.allocated q
    rw [hOpened]
    simpa [or_comm] using hq
  case once =>
    intro q hq
    have hOnce := h.once q hq
    rw [hOpened] at hOnce
    rw [recordClosed_openedOrders, recordClosed_closedOrders, List.count_append, List.count_nil,
      zero_add, add_comm]
    exact hOnce
  case marks =>
    have hMarks : FxEngine.marks { e with openedOrders := [] } = e.closedOrders.map .ended := h.marks
    rw [BookInv.marks_recordClosed, hMarks, recordClosed_closedOrders, List.map_append]
    rfl

end OneOpen

structure Inv (env : Env) (s : State) : Prop where
  book : OneOpen s.engine
  counter_nonneg : 0 ≤ s.tradeOpensInCurrentBar
  counter_le : s.tradeOpensInCurrentBar ≤ env.params.maxTradesPerCandle

theorem Env.maxTrades_pos (env : Env) : 0 < env.params.maxTradesPerCandle :=
  (Params.isValid_iff.mp env.accepted).2.2.2.2.2

theorem inv_start (env : Env) (autoOrderId : ℕ) : Inv env (start autoOrderId) where
  book := ⟨Nat.zero_le 1, fun _ hp => (nomatch hp), fun _ hp => (nomatch hp),
    fun _ hp => absurd hp (Nat.not_lt_zero _), rfl⟩
  counter_nonneg := le_rfl
  counter_le := env.maxTrades_pos.le

theorem Inv.exists_opened {env : Env} {s : State} (h : Inv env s) (hOpen : s.engine.openedOrders ≠ []) :
    ∃ p, s.engine.openedOrders = [p] :=
  List.length_eq_one_iff.mp (Nat.le_antisymm h.book.one (List.length_pos_iff.mpr hOpen))

theorem Inv.checkOrdersClosing {env : Env} {s : State} (h : Inv env s) (tick : TickData)
    (hOpen : s.engine.openedOrders ≠ []) : Inv env (s.checkOrdersClosing tick).1 := by
  obtain ⟨p, hOpened⟩ := h.exists_opened hOpen
  rcases State.checkOrdersClosing_of_singleton tick hOpened with hEq | ⟨o, _, hEq⟩
  · rwa [hEq]
  · rw [hEq]
    exact ⟨h.book.close hOpened o, h.counter_nonneg, h.counter_le⟩

theorem Inv.onTick {env : Env} {s : State} (h : Inv env s) (tick : TickData) :
    Inv env (s.onTick env tick) := by
  rcases State.onTick_cases env s tick with ⟨o, hSent, hEq⟩ | ⟨_, n, hEq⟩ | ⟨_, hOpen, hEq⟩
  · obtain ⟨hIsOpen, hNone, hRoom, _⟩ := State.sent_spec hSent
    rw [hEq]
    exact ⟨h.book.enlist hNone hIsOpen, Int.le_add_one h.counter_nonneg, hRoom⟩
  · rw [hEq]
    exact ⟨h.book.setAutoOrderId n, h.counter_nonneg, h.counter_le⟩
  · rw [hEq]
    exact h.checkOrdersClosing tick hOpen

theorem Inv.step {env : Env} {s : State} (h : Inv env s) (event : Event) :
    Inv env (step env s event) := by
  cases event with
  | tick tick => exact h.onTick tick
  | bar timeFrame bar =>
    obtain ⟨counter, _, _, hEq, hCounter, _⟩ := State.step_bar_eq env s timeFrame bar
    rw [hEq]
    rcases hCounter with rfl | rfl
    · exact ⟨h.book, le_rfl, env.maxTrades_pos.le⟩
    · exact ⟨h.book, h.counter_nonneg, h.counter_le⟩

theorem inv_after (env : Env) (autoOrderId : ℕ) (events : List Event) :
    Inv env (after env autoOrderId events) :=
  Runs.run_invariant (Inv env) (fun _ event h => h.step event) (inv_start env autoOrderId) events

/-! ### The trades of a candle -/

def Event.minuteBar? : Event → Option BarData
  | .tick _ => none
  | .bar timeFrame b => if timeFrame = 1 then some b else none

/-- The order that an event of the feed opens. -/
def sentOn (env : Env) (s : State) : Event → Option Order
  | .tick tick => s.sent env tick
  | .bar _ _ => none

theorem nextPtr_step (env : Env) {s : State} (h : Inv env s) (event : Event) :
    (step env s event).engine.nextPtr =
      s.engine.nextPtr + if (sentOn env s event).isSome then 1 else 0 := by
  cases event with
  | tick tick =>
    change (s.onTick env tick).engine.nextPtr = _ + if (s.sent env tick).isSome then 1 else 0
    rcases State.onTick_cases env s tick with ⟨o, hSent, hEq⟩ | ⟨hSent, n, hEq⟩ | ⟨hSent, hOpen, hEq⟩
    · rw [hEq, hSent]
      rfl
    · rw [hEq, hSent]
      rfl
    · obtain ⟨p, hOpened⟩ := h.exists_opened hOpen
      rw [hEq, hSent]
      rcases State.checkOrdersClosing_of_singleton tick hOpened with hEq | ⟨o, _, hEq⟩
      · rw [hEq]
        rfl
      · rw [hEq]
        rfl
  | bar timeFrame bar =>
    obtain ⟨_, _, _, hEq, _⟩ := State.step_bar_eq env s timeFrame bar
    rw [hEq]
    rfl

theorem counter_step (env : Env) (s : State) {event : Event}
    (hBar : event.minuteBar? = none) :
    (step env s event).tradeOpensInCurrentBar =
      s.tradeOpensInCurrentBar + if (sentOn env s event).isSome then 1 else 0 := by
  cases event with
  | tick tick =>
    change (s.onTick env tick).tradeOpensInCurrentBar = _ + if (s.sent env tick).isSome then 1 else 0
    rcases State.onTick_cases env s tick with ⟨o, hSent, hEq⟩ | ⟨hSent, n, hEq⟩ | ⟨hSent, hOpen, hEq⟩
    · rw [hEq, hSent]
      rfl
    · rw [hEq, hSent]
      exact (add_zero _).symm
    · rw [hEq, hSent]
      exact (add_zero _).symm
  | bar timeFrame bar =>
    obtain ⟨counter, _, _, hEq, _, hCounter⟩ := State.step_bar_eq env s timeFrame bar
    have hFrame : timeFrame ≠ 1 := by
      rintro rfl
      cases hBar
    rw [hEq]
    exact (hCounter hFrame).trans (add_zero _).symm

/-- Without a bar of one minute, the counter counts the orders. -/
theorem nextPtr_sub_counter {env : Env} {s : State} (h : Inv env s) {events : List Event}
    (hBars : ∀ event ∈ events, event.minuteBar? = none) :
    ((Runs.run (step env) s events).engine.nextPtr : ℤ) -
        (Runs.run (step env) s events).tradeOpensInCurrentBar =
      s.engine.nextPtr - s.tradeOpensInCurrentBar := by
  induction events generalizing s with
  | nil => rfl
  | cons event events ih =>
    have hEvent := hBars event List.mem_cons_self
    rw [Runs.run_cons, ih (h.step event) fun event hMem => hBars event (List.mem_cons_of_mem _ hMem),
      nextPtr_step env h event, counter_step env s hEvent]
    push_cast
    ring

/-- In every run at most one order is open, no more orders are opened in a stretch without a bar of
one minute than a candle may have, and every order opened is in one of the two lists, once. -/
theorem trades_of_a_run (env : Env) (autoOrderId : ℕ) (events : List Event) :
    (after env autoOrderId events).engine.openedOrders.length ≤ 1 ∧
      (∀ before stretch, events = before ++ stretch →
        (∀ event ∈ stretch, event.minuteBar? = none) →
        ((after env autoOrderId events).engine.nextPtr : ℤ) ≤
          (after env autoOrderId before).engine.nextPtr + env.params.maxTradesPerCandle) ∧
      ∀ p < (after env autoOrderId events).engine.nextPtr,
        (after env autoOrderId events).engine.openedOrders.count p +
          (after env autoOrderId events).engine.closedOrders.count p = 1 := by
  have h := inv_after env autoOrderId events
  refine ⟨h.book.one, ?_, h.book.once⟩
  rintro before stretch rfl hBars
  have hBefore := inv_after env autoOrderId before
  have hStretch : ((after env autoOrderId (before ++ stretch)).engine.nextPtr : ℤ) -
      (after env autoOrderId (before ++ stretch)).tradeOpensInCurrentBar =
        (after env autoOrderId before).engine.nextPtr -
          (after env autoOrderId before).tradeOpensInCurrentBar := by
    rw [after, Runs.run_append]
    exact nextPtr_sub_counter hBefore hBars
  have hLe := h.counter_le
  have hNonneg := hBefore.counter_nonneg
  omega

/-! ### The events of the orders -/

/-- Every close was preceded by exactly one opening of the same order, and the open orders have been
announced as opened. -/
def FollowsLifecycle (e : FxEngine) : Prop :=
  (∀ before p later, e.marks = before ++ .ended p :: later → Lifecycle.begins before p = 1) ∧
    ∀ p ∈ e.openedOrders, .begun p ∈ e.marks

/-- No order of this strategy is ever announced as opened. -/
theorem followsLifecycle_iff {e : FxEngine} (h : OneOpen e) :
    FollowsLifecycle e ↔ e.nextPtr = 0 := by
  have hNever : ∀ p, .begun p ∉ e.marks := by
    intro p hp
    rw [h.marks, List.mem_map] at hp
    obtain ⟨_, _, hEq⟩ := hp
    cases hEq
  constructor
  · rintro ⟨hEnded, hBegun⟩
    by_contra hNe
    have hOnce := h.once 0 (Nat.pos_of_ne_zero hNe)
    by_cases hOpen : 0 ∈ e.openedOrders
    · exact hNever 0 (hBegun 0 hOpen)
    · have hClosed : 0 ∈ e.closedOrders := by
        rw [List.count_eq_zero.mpr hOpen, zero_add] at hOnce
        exact List.count_pos_iff.mp (Nat.one_pos.trans_eq hOnce.symm)
      have hMark : .ended 0 ∈ e.marks := by
        rw [h.marks]
        exact List.mem_map_of_mem hClosed
      obtain ⟨before, later, hMarks⟩ := List.append_of_mem hMark
      have hBegins := hEnded before 0 later hMarks
      have hMem : .begun 0 ∈ before := List.count_pos_iff.mp (Nat.one_pos.trans_eq hBegins.symm)
      exact hNever 0 (hMarks ▸ List.mem_append_left _ hMem)
  · intro hZero
    have hEmpty : ∀ p, p ∉ e.openedOrders ++ e.closedOrders := by
      intro p hp
      have hLt := h.allocated p hp
      rw [hZero] at hLt
      exact Nat.not_lt_zero p hLt
    constructor
    · intro before p later hMarks
      have hMark : .ended p ∈ e.marks := hMarks ▸ by simp
      rw [h.marks, List.mem_map_of_injective fun _ _ => Lifecycle.Mark.ended.inj] at hMark
      exact absurd (List.mem_append_right _ hMark) (hEmpty p)
    · exact fun p hp => absurd (List.mem_append_left _ hp) (hEmpty p)

def twentyPoints : Env where
  symbol := .eurusd
  params := {
    volume := 1 / 10, sl := 10, tp := 10, minCandle := 20, linesDist := 20, maxTradesPerCandle := 1 }
  accepted := by decide +kernel

/-- Two bars of five points, which draw the lines ten points above and below 1, and a tick above. -/
def smallBars : List Event :=
  [.bar 1 ⟨1, 100005 / 100000, 1, 1, 60⟩, .bar 1 ⟨1, 100005 / 100000, 1, 1, 120⟩,
    .tick ⟨10002 / 10000, 10003 / 10000, 121000⟩]

end First

end Fxquant
