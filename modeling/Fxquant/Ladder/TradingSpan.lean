import Fxquant.Engine.Stats
import Fxquant.Ladder.Reachable

/-!
# The trading span

The report takes the open time of the first and the close time of the last of the closed orders
for the first open and the last close of all. The closed list is in the order of closing. Along
it the close times do not decrease; the open times may, since trades overlap.
-/

namespace Fxquant

namespace FxEngine

/-! ### What a step closes -/

/-- From one book to the other the orders of a list have been closed at a tick, and those closed
before are as they were. -/
structure ClosesAt (e e' : FxEngine) (tick : TickData) (l : List Ptr) : Prop where
  closedOrders : e'.closedOrders = e.closedOrders ++ l
  old : ∀ p ∈ e.closedOrders, e'.heap p = e.heap p
  new : ∀ p ∈ l, (e'.heap p).closeTick = some tick ∧ (e'.heap p).closeTime = tick.time

theorem ClosesAt.trans {e e' e'' : FxEngine} {tick : TickData} {l l' : List Ptr}
    (h : ClosesAt e e' tick l) (h' : ClosesAt e' e'' tick l') : ClosesAt e e'' tick (l ++ l') where
  closedOrders := by rw [h'.closedOrders, h.closedOrders, List.append_assoc]
  old p hp := by
    rw [h'.old p (by rw [h.closedOrders]; exact List.mem_append_left _ hp), h.old p hp]
  new p hp := by
    rcases List.mem_append.mp hp with hp | hp
    · rw [h'.old p (by rw [h.closedOrders]; exact List.mem_append_right _ hp)]
      exact h.new p hp
    · exact h'.new p hp

theorem ClosesAt.of_opened {e e' : FxEngine} {tick : TickData} {opened l : List Ptr}
    (h : ClosesAt { e with openedOrders := opened } e' tick l) : ClosesAt e e' tick l :=
  ⟨h.closedOrders, h.old, h.new⟩

theorem closesAt_of_eq {e e' : FxEngine} (tick : TickData) (hClosed : e'.closedOrders = e.closedOrders)
    (hHeap : ∀ p ∈ e.closedOrders, e'.heap p = e.heap p) : ClosesAt e e' tick [] where
  closedOrders := hClosed.trans (List.append_nil _).symm
  old := hHeap
  new _ hp := nomatch hp

theorem BookInv.closesAt_recordClosed {e : FxEngine} {flight : List Ptr} {p : Ptr} {o : Order}
    {tick : TickData} (h : BookInv e (p :: flight)) (hClose : (e.heap p).closeAt tick = some o) :
    ClosesAt e (e.recordClosed p o) tick [p] where
  closedOrders := rfl
  old q hq := by
    have hFresh : p ∉ e.closedOrders := fun hp =>
      (List.nodup_cons.mp h.nodup).1 (List.mem_append_right _ hp)
    exact Function.update_of_ne (ne_of_mem_of_not_mem hq hFresh) _ _
  new q hq := by
    obtain rfl := List.mem_singleton.mp hq
    obtain ⟨_, rfl⟩ := Order.closeAt_eq_some_iff.mp hClose
    rw [recordClosed_heap, Function.update_self]
    exact ⟨rfl, rfl⟩

theorem BookInv.closesAt_closeEach {e : FxEngine} {flight : List Ptr} (tick : TickData)
    (h : BookInv e flight) : ClosesAt e (FxEngine.closeEach tick e flight) tick flight := by
  induction flight generalizing e with
  | nil => exact closesAt_of_eq tick rfl fun _ _ => rfl
  | cons p flight ih =>
    obtain ⟨o, hClose⟩ := Order.exists_closeAt tick (h.isOpen p (by simp))
    rw [FxEngine.closeEach]
    simp only [hClose]
    exact (h.closesAt_recordClosed hClose).trans (ih (h.recordClosed hClose))

end FxEngine

namespace Ladder

open FxEngine

theorem closesAt_sendIf (env : Env) {s : State} (tick : TickData) (type : OrderType) (b : Bool)
    (h : s.engine.BookInv []) : ClosesAt s.engine (s.sendIf env tick type b).engine tick [] := by
  rcases sendIf_cases env s tick type b with ⟨_, n, hEngine⟩ | ⟨o, _, _, hEngine⟩
  · rw [hEngine]
    exact closesAt_of_eq tick rfl fun _ _ => rfl
  · rw [hEngine]
    exact closesAt_of_eq tick rfl fun p hp =>
      place_heap_of_lt _ (h.allocated p (List.mem_append_right _ hp))

theorem closesAt_opened (env : Env) {s : State} (tick : TickData) (h : s.engine.BookInv []) :
    ClosesAt s.engine (s.opened env tick).engine tick [] := by
  have hInit : (s.initializeCompute env tick).engine.BookInv [] := by
    rwa [State.initializeCompute_engine]
  have hBook : ((s.initializeCompute env tick).sendIf env tick .buyOrder
      (asks env s tick .buyOrder)).engine.BookInv [] := State.bookInv_sendIf (.inl rfl) hInit
  have hBuy := closesAt_sendIf env tick .buyOrder (asks env s tick .buyOrder) hInit
  have hSell := closesAt_sendIf env tick .sellOrder (asks env s tick .sellOrder) hBook
  rw [State.initializeCompute_engine] at hBuy
  rw [opened_eq]
  exact hBuy.trans hSell

/-! ### The orders that come due -/

/-- `check_orders_closing` closes the first of the orders at their stop loss or take profit. -/
def stopsDue (env : Env) (s : State) (tick : TickData) : List Ptr :=
  ((s.opened env tick).closingOrders tick).take 1

/-- Reaching the target of the cycle closes the whole book. -/
def cycleDue (env : Env) (s : State) (tick : TickData) : List Ptr :=
  if (s.checked env tick).isCloseOnProfit env tick then (s.checked env tick).engine.openedOrders
  else []

/-- The order that is found for the soft take profit, if the gate lets it go. -/
def foundDue (env : Env) (s : State) (changeLots : Order → ℚ) (found : Option Ptr) : List Ptr :=
  found.toList.filter fun p =>
    State.isDynamicChangeAllowed env s.compute (changeLots (s.engine.heap p))

def softDue (env : Env) (s : State) (tick : TickData) : List Ptr :=
  if env.params.softTp ≤ 0 ∨ s.engine.openedOrders = [] then []
  else foundDue env s (fun o => -o.volume) (s.findProfitableBuy env tick) ++
    foundDue env (s.softBuy env tick) (fun o => o.volume)
      ((s.softBuy env tick).findProfitableSell env tick)

/-- The orders that come due on a tick, first those at their stops. -/
def due (env : Env) (s : State) (tick : TickData) : List Ptr :=
  stopsDue env s tick ++ cycleDue env s tick ++ softDue env (s.settled env tick) tick

theorem closesAt_closeIfAllowed (env : Env) {s : State} (tick : TickData) (changeLots : Order → ℚ)
    {found : Option Ptr} (h : s.engine.BookInv [])
    (hFound : ∀ p, found = some p → p ∈ s.engine.openedOrders) :
    ClosesAt s.engine (s.closeIfAllowed env tick changeLots found).1.engine tick
      (foundDue env s changeLots found) := by
  rcases State.closeIfAllowed_cases env tick changeLots h hFound with
    ⟨hEq, hGate⟩ | ⟨p, o, rfl, hMem, hGate, hClose, hEq⟩
  · have hNone : foundDue env s changeLots found = [] := by
      rw [foundDue, List.filter_eq_nil_iff]
      intro p hp
      rw [hGate p (Option.mem_toList.mp hp)]
      exact Bool.false_ne_true
    rw [hEq, hNone]
    exact closesAt_of_eq tick rfl fun _ _ => rfl
  · have hOne : foundDue env s changeLots (some p) = [p] := by simp [foundDue, hGate]
    rw [hEq, hOne]
    exact ((h.takeOne hMem).closesAt_recordClosed hClose).of_opened

theorem closesAt_checked (env : Env) {s : State} (tick : TickData) (h : s.engine.BookInv []) :
    ClosesAt (s.opened env tick).engine (s.checked env tick).engine tick (stopsDue env s tick) := by
  have hOpened := State.bookInv_opened env tick h
  cases hClosing : (s.opened env tick).closingOrders tick with
  | nil =>
    rw [State.checked, State.checkOrdersClosing_of_nil hClosing, stopsDue, hClosing]
    exact closesAt_of_eq tick rfl fun _ _ => rfl
  | cons p rest =>
    obtain ⟨o, hClose, hEq⟩ := State.checkOrdersClosing_of_cons hOpened hClosing
    have hExtracted := State.bookInv_extracted tick hOpened
    rw [hClosing] at hExtracted
    rw [State.checked, hEq, stopsDue, hClosing]
    exact (hExtracted.closesAt_recordClosed hClose).of_opened

theorem closesAt_settled (env : Env) {s : State} (tick : TickData) (h : s.engine.BookInv []) :
    ClosesAt (s.checked env tick).engine (s.settled env tick).engine tick (cycleDue env s tick) := by
  rw [State.settled, State.closeCycle, cycleDue]
  split
  · change ClosesAt _ ((s.checked env tick).engine.closeAllTrades tick) _ _
    rw [closeAllTrades_eq]
    exact ((State.bookInv_checked env tick h).takeAll.closesAt_closeEach tick).of_opened
  · exact closesAt_of_eq tick rfl fun _ _ => rfl

theorem closesAt_isSoftTpClosed (env : Env) {s : State} (tick : TickData) (h : s.engine.BookInv []) :
    ClosesAt s.engine (s.isSoftTpClosed env tick).1.engine tick (softDue env s tick) := by
  rw [State.isSoftTpClosed_eq, softDue]
  split
  · exact closesAt_of_eq tick rfl fun _ _ => rfl
  · have hBuy : ClosesAt s.engine (s.softBuy env tick).engine tick _ :=
      closesAt_closeIfAllowed env tick _ h fun _ hp => (State.findProfitableBuy_spec hp).1
    refine hBuy.trans (closesAt_closeIfAllowed env tick _ (State.bookInv_softBuy env tick h) ?_)
    exact fun _ hp => (State.findProfitableSell_spec hp).1

/-- A tick closes the orders that come due on it, at that tick. -/
theorem closesAt_onTick (env : Env) {s : State} (tick : TickData) (h : s.engine.BookInv []) :
    ClosesAt s.engine (s.onTick env tick).engine tick (due env s tick) :=
  (((closesAt_opened env tick h).trans (closesAt_checked env tick h)).trans
    (closesAt_settled env tick h)).trans
      (closesAt_isSoftTpClosed env tick (State.bookInv_settled env tick h))

/-! ### The times of the orders -/

theorem newOrder_openTime {env : Env} {tick : TickData} {type : OrderType} {o : Order}
    (h : newOrder env tick type = some o) : ∀ t, o.openTick = some t → o.openTime = t.time := by
  obtain ⟨o', hPoints, rfl⟩ := Option.map_eq_some_iff.mp h
  have hNone : o'.openTick = none := Order.openTick_of_ofPoints hPoints
  intro t hTick
  rw [Order.openAt] at hTick ⊢
  split at hTick
  · rename_i hOpens
    obtain rfl := Option.some.inj hTick
    rw [if_pos hOpens]
    rfl
  · cases hNone.symm.trans hTick

theorem holdsOfTerms_openTime (env : Env) :
    HoldsOfTerms env fun o => ∀ t, o.openTick = some t → o.openTime = t.time where
  terms {o o'} hTerms hTime t hTick := by
    rw [Order.openTime_of_terms hTerms]
    exact hTime t (Order.openTick_of_terms hTerms ▸ hTick)
  new {_ _ o} _ _ hNew := by
    change ∀ t, o.openTick = some t → o.openTime = t.time
    exact newOrder_openTime hNew

/-- The closed list is in the order of the ticks that closed its orders. -/
structure ClosedInOrder (e : FxEngine) (ticks : List TickData) : Prop where
  ticks : ∀ p ∈ e.closedOrders, ∃ t ∈ ticks,
    (e.heap p).closeTick = some t ∧ (e.heap p).closeTime = t.time
  times : e.closedOrders.Pairwise fun p q => (e.heap p).closeTime ≤ (e.heap q).closeTime

theorem closedInOrder_after (env : Env) (autoOrderId : ℕ) {ticks : List TickData}
    (hTimes : ticks.Pairwise fun t t' => t.time ≤ t'.time) :
    ClosedInOrder (after env autoOrderId ticks).engine ticks := by
  induction ticks using List.reverseRecOn with
  | nil => exact ⟨nofun, List.Pairwise.nil⟩
  | append_singleton ticks tick ih =>
    obtain ⟨hBefore, _, hLast⟩ := List.pairwise_append.mp hTimes
    obtain ⟨hTicks, hOrder⟩ := ih hBefore
    have hCloses := closesAt_onTick env tick (inv_after env autoOrderId ticks).book
    rw [after_concat]
    constructor
    case ticks =>
      intro p hp
      rw [hCloses.closedOrders] at hp
      rcases List.mem_append.mp hp with hp | hp
      · obtain ⟨t, ht, hTick, hTime⟩ := hTicks p hp
        rw [hCloses.old p hp]
        exact ⟨t, List.mem_append_left _ ht, hTick, hTime⟩
      · obtain ⟨hTick, hTime⟩ := hCloses.new p hp
        exact ⟨tick, by simp, hTick, hTime⟩
    case times =>
      rw [hCloses.closedOrders, List.pairwise_append]
      refine ⟨?_, ?_, ?_⟩
      · refine hOrder.imp_of_mem fun hp hq hLe => ?_
        rw [hCloses.old _ hp, hCloses.old _ hq]
        exact hLe
      · refine List.pairwise_of_forall_mem_list fun p hp q hq => ?_
        rw [(hCloses.new p hp).2, (hCloses.new q hq).2]
      · intro p hp q hq
        obtain ⟨t, ht, _, hTime⟩ := hTicks p hp
        rw [hCloses.old p hp, hTime, (hCloses.new q hq).2]
        exact hLast t ht tick (List.mem_singleton_self tick)

/-! ### The reported span -/

/-- The reported times enclose those of all closed orders. -/
def SpanCovers (e : FxEngine) : Prop :=
  ∀ p ∈ e.closedOrders, e.calcClosedTradesStats.openTime ≤ (e.heap p).openTime ∧
    (e.heap p).closeTime ≤ e.calcClosedTradesStats.closedTime

def OpenCovers (e : FxEngine) : Prop :=
  ∀ p ∈ e.closedOrders, e.calcClosedTradesStats.openTime ≤ (e.heap p).openTime

/-- No order that comes due on the tick is older than the one that the run closes first, at this tick
or before. -/
def NoneOlderDue (env : Env) (s : State) (tick : TickData) : Prop :=
  ∀ first ∈ (s.engine.closedOrders ++ due env s tick).head?, ∀ p ∈ due env s tick,
    ((s.opened env tick).engine.heap first).openTime ≤ ((s.opened env tick).engine.heap p).openTime

instance (env : Env) (s : State) (tick : TickData) : Decidable (NoneOlderDue env s tick) :=
  inferInstanceAs (Decidable (∀ first ∈ _, _))

/-- The invariant of a run, with the open times of the orders. -/
structure TimedInv (env : Env) (s : State) : Prop where
  inv : Inv env s
  openTime : ∀ p < s.engine.nextPtr, ∀ t, (s.engine.heap p).openTick = some t →
    (s.engine.heap p).openTime = t.time

theorem TimedInv.onTick {env : Env} {s : State} (h : TimedInv env s) (tick : TickData) :
    TimedInv env (s.onTick env tick) :=
  ⟨h.inv.onTick tick, (holdsOfTerms_openTime env).onTick h.inv.book h.openTime tick⟩

theorem TimedInv.openTime_eq {env : Env} {s : State} (h : TimedInv env s) {first : Ptr}
    (hFirst : s.engine.closedOrders.head? = some first) :
    s.engine.calcClosedTradesStats.openTime = (s.engine.heap first).openTime := by
  have hLt : first < s.engine.nextPtr :=
    h.inv.book.allocated first (by simp [List.mem_of_head? hFirst])
  obtain ⟨_, _, _, t, _, hTick, _⟩ := h.inv.orders first hLt
  rw [h.openTime first hLt t hTick, calcClosedTradesStats]
  simp [hFirst, hTick]

theorem openCovers_onTick_iff {env : Env} {s : State} (h : TimedInv env s) (tick : TickData) :
    OpenCovers (s.onTick env tick).engine ↔ OpenCovers s.engine ∧ NoneOlderDue env s tick := by
  have hCloses := closesAt_onTick env tick h.inv.book
  have hOnly := State.onlyCloses_onTick env tick h.inv.book
  have hTime : ∀ p, ((s.onTick env tick).engine.heap p).openTime =
      ((s.opened env tick).engine.heap p).openTime := fun p => Order.openTime_of_terms (hOnly.terms p)
  have hMem : ∀ p, p ∈ (s.onTick env tick).engine.closedOrders ↔
      p ∈ s.engine.closedOrders ∨ p ∈ due env s tick := fun p => by
    rw [hCloses.closedOrders, List.mem_append]
  -- The first order stays the first, and the orders closed before keep their times.
  have hFirst : ∀ first, s.engine.closedOrders.head? = some first →
      (s.onTick env tick).engine.closedOrders.head? = some first := fun first hHead => by
    rw [hCloses.closedOrders, List.head?_append, hHead]
    rfl
  rw [NoneOlderDue, ← hCloses.closedOrders]
  constructor
  · intro hCovers
    constructor
    · intro p hp
      cases hHead : s.engine.closedOrders.head? with
      | none => rw [List.head?_eq_none_iff.mp hHead] at hp; cases hp
      | some first =>
        have hLe := hCovers p ((hMem p).mpr (.inl hp))
        rw [(h.onTick tick).openTime_eq (hFirst first hHead), hCloses.old p hp,
          hCloses.old first (List.mem_of_head? hHead)] at hLe
        rwa [h.openTime_eq hHead]
    · intro first hHead p hp
      have hLe := hCovers p ((hMem p).mpr (.inr hp))
      rwa [(h.onTick tick).openTime_eq hHead, hTime, hTime] at hLe
  · rintro ⟨hCovers, hOlder⟩ p hp
    obtain ⟨first, hHead⟩ : ∃ first, (s.onTick env tick).engine.closedOrders.head? = some first :=
      ⟨_, List.head?_eq_some_head (List.ne_nil_of_mem hp)⟩
    rw [(h.onTick tick).openTime_eq hHead]
    rcases (hMem p).mp hp with hOld | hDue
    · obtain ⟨first', hHead'⟩ : ∃ first', s.engine.closedOrders.head? = some first' :=
        ⟨_, List.head?_eq_some_head (List.ne_nil_of_mem hOld)⟩
      obtain rfl : first' = first := Option.some.inj ((hFirst first' hHead').symm.trans hHead)
      have hLe := hCovers p hOld
      rw [h.openTime_eq hHead'] at hLe
      rwa [hCloses.old p hOld, hCloses.old first' (List.mem_of_head? hHead')]
    · rw [hTime, hTime]
      exact hOlder first hHead p hDue

theorem closedTime_covers {e : FxEngine} {ticks : List TickData} (h : ClosedInOrder e ticks) :
    ∀ p ∈ e.closedOrders, (e.heap p).closeTime ≤ e.calcClosedTradesStats.closedTime := by
  intro p hp
  have hNe : e.closedOrders ≠ [] := List.ne_nil_of_mem hp
  obtain ⟨t, _, hTick, hTime⟩ := h.ticks _ (List.getLast_mem hNe)
  have hLast := h.times.rel_getLast hp
  rw [hTime] at hLast
  rw [calcClosedTradesStats]
  simpa [List.getLast?_eq_some_getLast hNe, hTick] using hLast

def twoLevels : Env where
  symbol := .eurusd
  params := {
    volume := 1 / 10, sl := 1000, tp := 200, softTp := 0, step := 100, lvlTolerance := 5
    tradesPerLvl := 1, closeCycleOnProfit := 0, sectionsInHalfRange := 100, sectionsOffset := 0
    maxLotsAllowed := 0, maxSpread := 0, plr := 0 }
  outOfRange := fun _ => Doubles.intMin
  accepted := by decide +kernel

/-- Up one level, where a second sell is opened, and down again. -/
def overtakingTicks : List TickData :=
  [quote 1.0000 1.0001 0, quote 1.0010 1.0011 1000, quote 0.9988 0.9989 2000,
    quote 0.9977 0.9978 3000]

/-- In doubles the ask of the third tick is between the take profits of the two sells as well. -/
example :
    let takeProfit := fun price =>
      Doubles.rounded (price - Doubles.rounded (200 * twoLevels.roundedPoint))
    takeProfit (quote 1.0000 1.0001 0).bid < (quote 0.9988 0.9989 2000).ask ∧
      (quote 0.9988 0.9989 2000).ask ≤ takeProfit (quote 1.0010 1.0011 1000).bid ∧
      (quote 0.9977 0.9978 3000).ask ≤ takeProfit (quote 1.0000 1.0001 0).bid := by
  decide +kernel

end Ladder

end Fxquant
