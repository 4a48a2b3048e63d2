import Fxquant.Engine.Book
import Fxquant.Library.Lifecycle

/-!
# The invariant of an order book

The invariant speaks about the open list, the closed list and the orders in flight: those a
strategy has taken out of the open list and not closed yet. Every operation on the book is a
move between the three, and the log of events follows the lifecycle protocol throughout.
-/

namespace Fxquant

open Lifecycle

def OrderEvent.mark? (event : OrderEvent) : Option (Mark Ptr) :=
  match event.action with
  | .opened => some (.begun event.optr)
  | .closed => some (.ended event.optr)
  | _ => none

namespace FxEngine

def marks (e : FxEngine) : List (Mark Ptr) := e.orderEvents.filterMap OrderEvent.mark?

def closedEvents (e : FxEngine) : List OrderEvent :=
  e.orderEvents.filter fun event => event.action == .closed

structure BookInv (e : FxEngine) (flight : List Ptr) : Prop where
  isOpen : ∀ p ∈ flight ++ e.openedOrders, (e.heap p).isOpen = true
  isClosed : ∀ p ∈ e.closedOrders, (e.heap p).isOpened = true ∧ (e.heap p).isClosed = true
  nodup : (flight ++ e.openedOrders ++ e.closedOrders).Nodup
  allocated : ∀ p ∈ flight ++ e.openedOrders ++ e.closedOrders, p < e.nextPtr
  begins : ∀ p, begins e.marks p = if p < e.nextPtr then 1 else 0
  closedEvents : e.closedEvents = e.closedOrders.map fun p => ⟨.closed, p, e.heap p⟩
  ordered : Ordered e.marks

/-- Every order ever sent is in flight or in one of the two lists. -/
def Held (e : FxEngine) (flight : List Ptr) : Prop :=
  ∀ p < e.nextPtr, p ∈ flight ++ e.openedOrders ++ e.closedOrders

theorem bookInv_empty (autoOrderId : ℕ) : BookInv { autoOrderId } [] where
  isOpen := by simp
  isClosed := by simp
  nodup := by simp
  allocated := by simp
  begins := by simp [marks, Lifecycle.begins]
  closedEvents := by simp [FxEngine.closedEvents]
  ordered := by simpa [marks] using ordered_nil

namespace BookInv

variable {e : FxEngine} {flight : List Ptr}

theorem ends_eq_count (h : BookInv e flight) (p : Ptr) : ends e.marks p = e.closedOrders.count p := by
  have hEvents : ∀ events : List OrderEvent, ends (events.filterMap OrderEvent.mark?) p =
      ((events.filter fun event => event.action == .closed).map OrderEvent.optr).count p := by
    intro events
    induction events with
    | nil => rfl
    | cons event events ih =>
      obtain ⟨action, optr, clone⟩ := event
      rw [ends] at ih ⊢
      cases action <;> simp [List.filterMap_cons, OrderEvent.mark?, List.count_cons, ih]
  rw [marks, hEvents, ← FxEngine.closedEvents, h.closedEvents, List.map_map]
  congr 1
  exact List.map_id _

theorem takeOut (h : BookInv e []) {opened taken : List Ptr}
    (hPerm : (taken ++ opened).Perm e.openedOrders) :
    BookInv { e with openedOrders := opened } taken where
  isOpen p hp := h.isOpen p (hPerm.subset hp)
  isClosed := h.isClosed
  nodup := (hPerm.append_right _).nodup_iff.mpr h.nodup
  allocated p hp := h.allocated p ((hPerm.append_right _).subset hp)
  begins := h.begins
  closedEvents := h.closedEvents
  ordered := h.ordered

theorem forget (h : BookInv e flight) : BookInv e [] where
  isOpen p hp := h.isOpen p (List.mem_append_right _ hp)
  isClosed := h.isClosed
  nodup := h.nodup.sublist (by simp [List.append_assoc])
  allocated p hp := h.allocated p (by
    rw [List.append_assoc]
    exact List.mem_append_right _ hp)
  begins := h.begins
  closedEvents := h.closedEvents
  ordered := h.ordered

theorem marks_recordClosed (e : FxEngine) (p : Ptr) (o : Order) :
    (e.recordClosed p o).marks = e.marks ++ [.ended p] := by
  simp [marks, OrderEvent.mark?]

theorem recordClosed {p : Ptr} {o : Order} {tick : TickData} (h : BookInv e (p :: flight))
    (hClose : (e.heap p).closeAt tick = some o) : BookInv (e.recordClosed p o) flight := by
  have hNodup : p ∉ flight ++ e.openedOrders ++ e.closedOrders ∧
      (flight ++ e.openedOrders ++ e.closedOrders).Nodup := by
    simpa only [List.cons_append, List.nodup_cons] using h.nodup
  obtain ⟨hFresh, hNodup⟩ := hNodup
  have hNext : p < e.nextPtr := h.allocated p (by simp)
  have hOther : ∀ q ∈ flight ++ e.openedOrders ++ e.closedOrders, q ≠ p := fun q hq =>
    ne_of_mem_of_not_mem hq hFresh
  constructor
  case isOpen =>
    intro q hq
    rw [recordClosed_openedOrders] at hq
    rw [recordClosed_heap, Function.update_of_ne (hOther q (List.mem_append_left _ hq))]
    exact h.isOpen q (List.mem_cons_of_mem _ hq)
  case isClosed =>
    intro q hq
    rw [recordClosed_closedOrders, List.mem_append, List.mem_singleton] at hq
    rw [recordClosed_heap]
    rcases hq with hq | rfl
    · rw [Function.update_of_ne (hOther q (List.mem_append_right _ hq))]
      exact h.isClosed q hq
    · rw [Function.update_self]
      exact Order.closeAt_isClosed hClose
  case nodup =>
    rw [recordClosed_openedOrders, recordClosed_closedOrders, ← List.append_assoc]
    exact List.nodup_append_comm.mp (List.nodup_cons.mpr ⟨hFresh, hNodup⟩)
  case allocated =>
    intro q hq
    rw [recordClosed_openedOrders, recordClosed_closedOrders, ← List.append_assoc,
      List.mem_append, List.mem_singleton] at hq
    rcases hq with hq | rfl
    · exact h.allocated q (List.mem_cons_of_mem _ hq)
    · exact hNext
  case begins =>
    intro q
    rw [marks_recordClosed, begins_concat, recordClosed_nextPtr, h.begins q]
    simp
  case closedEvents =>
    have hKept := map_recordClosed e (fun q o => (⟨.closed, q, o⟩ : OrderEvent)) o
      fun hp => hFresh (List.mem_append_right _ hp)
    rw [FxEngine.closedEvents, recordClosed_orderEvents, List.filter_append, ← FxEngine.closedEvents,
      h.closedEvents, recordClosed_closedOrders, List.map_append, hKept]
    simp
  case ordered =>
    rw [marks_recordClosed]
    apply h.ordered.ended
    rw [h.ends_eq_count, h.begins p, if_pos hNext,
      List.count_eq_zero.mpr (fun hp => hFresh (List.mem_append_right _ hp))]
    exact Nat.one_pos

theorem marks_place (e : FxEngine) (o : Order) :
    (e.place o).marks = e.marks ++ [.begun e.nextPtr] := by
  simp [marks, place, OrderEvent.mark?]

theorem place {o : Order} (h : BookInv e flight) (hOpen : o.isOpen = true) :
    BookInv (e.place o) flight := by
  have hFresh : e.nextPtr ∉ flight ++ e.openedOrders ++ e.closedOrders :=
    fun hMem => (h.allocated _ hMem).false
  have hPerm : (flight ++ (e.place o).openedOrders ++ e.closedOrders).Perm
      (e.nextPtr :: (flight ++ e.openedOrders ++ e.closedOrders)) := by
    rw [FxEngine.place, ← List.append_assoc, List.append_assoc _ [e.nextPtr]]
    exact List.perm_middle
  constructor
  case isOpen =>
    intro q hq
    rw [FxEngine.place, ← List.append_assoc, List.mem_append, List.mem_singleton] at hq
    rcases hq with hq | rfl
    · rw [place_heap_of_lt o (h.allocated q (List.mem_append_left _ hq))]
      exact h.isOpen q hq
    · rw [place_heap_self]
      exact hOpen
  case isClosed =>
    intro q hq
    rw [place_heap_of_lt o (h.allocated q (List.mem_append_right _ hq))]
    exact h.isClosed q hq
  case nodup =>
    exact hPerm.nodup_iff.mpr (List.nodup_cons.mpr ⟨hFresh, h.nodup⟩)
  case allocated =>
    intro q hq
    change q < e.nextPtr + 1
    rcases List.mem_cons.mp (hPerm.subset hq) with rfl | hq
    · exact Nat.lt_succ_self _
    · exact Nat.lt_succ_of_lt (h.allocated q hq)
  case begins =>
    intro q
    rw [marks_place, begins_concat, h.begins q]
    change _ = if q < e.nextPtr + 1 then 1 else 0
    by_cases hq : e.nextPtr = q
    · simp [hq]
    · have hIff : q < e.nextPtr + 1 ↔ q < e.nextPtr := by
        rw [Nat.lt_succ_iff_lt_or_eq, or_iff_left (Ne.symm hq)]
      simp [hq, hIff]
  case closedEvents =>
    have hEvents : (e.place o).orderEvents = e.orderEvents ++ [⟨.opened, e.nextPtr, o⟩] := rfl
    rw [FxEngine.closedEvents, hEvents, List.filter_append, ← FxEngine.closedEvents, h.closedEvents]
    simp only [beq_iff_eq, reduceCtorEq, not_false_eq_true, List.filter_cons_of_neg, List.filter_nil,
      List.append_nil]
    apply List.map_congr_left
    intro q hq
    rw [place_heap_of_lt o (h.allocated q (List.mem_append_right _ hq))]
  case ordered =>
    rw [marks_place]
    apply h.ordered.begun
    rw [h.begins, if_neg (Nat.lt_irrefl _)]

theorem setAutoOrderId (h : BookInv e flight) (n : ℕ) : BookInv { e with autoOrderId := n } flight where
  isOpen := h.isOpen
  isClosed := h.isClosed
  nodup := h.nodup
  allocated := h.allocated
  begins := h.begins
  closedEvents := h.closedEvents
  ordered := h.ordered

theorem orderSend {type : OrderType} (hType : type = .buyOrder ∨ type = .sellOrder)
    (h : BookInv e flight) (symbol : Symbol) (tick : TickData) (volume openPrice : ℚ) (sl tp : ℤ)
    (data : Option Ptr) :
    BookInv (e.orderSend type symbol tick volume openPrice sl tp data).1 flight := by
  rw [orderSend_eq]
  split
  · rename_i o hSent
    exact h.place (sentOrder_spec hType hSent).2.2.2.2.2.2.1
  · exact h.setAutoOrderId _

/-- Orders in flight are closed one after another; none of the `close` calls fails. -/
theorem closeEach (tick : TickData) (h : BookInv e flight) :
    BookInv (FxEngine.closeEach tick e flight) [] ∧
      (FxEngine.closeEach tick e flight).openedOrders = e.openedOrders ∧
      (FxEngine.closeEach tick e flight).closedOrders = e.closedOrders ++ flight ∧
      (FxEngine.closeEach tick e flight).nextPtr = e.nextPtr := by
  induction flight generalizing e with
  | nil => exact ⟨h, rfl, (List.append_nil _).symm, rfl⟩
  | cons p flight ih =>
    obtain ⟨o, hClose⟩ := Order.exists_closeAt tick (h.isOpen p (by simp))
    rw [FxEngine.closeEach]
    simp only [hClose]
    obtain ⟨hInv, hOpened, hClosed, hNext⟩ := ih (h.recordClosed hClose)
    refine ⟨hInv, hOpened, ?_, hNext⟩
    rw [hClosed, recordClosed_closedOrders, List.append_assoc]
    rfl

theorem takeAll (h : BookInv e []) : BookInv { e with openedOrders := [] } e.openedOrders :=
  h.takeOut (by rw [List.append_nil])

theorem closeAllTrades (tick : TickData) (h : BookInv e []) :
    BookInv (e.closeAllTrades tick) [] ∧ (e.closeAllTrades tick).openedOrders = [] ∧
      (e.closeAllTrades tick).closedOrders = e.closedOrders ++ e.openedOrders ∧
      (e.closeAllTrades tick).nextPtr = e.nextPtr := by
  rw [closeAllTrades_eq]
  exact h.takeAll.closeEach tick

theorem takeOne (h : BookInv e []) {p : Ptr} (hp : p ∈ e.openedOrders) :
    BookInv { e with openedOrders := e.openedOrders.erase p } [p] :=
  h.takeOut (List.perm_cons_erase hp).symm

theorem closeTrade (tick : TickData) (h : BookInv e []) {p : Ptr} (hp : p ∈ e.openedOrders) :
    ∃ o, (e.heap p).closeAt tick = some o ∧
      e.closeTrade tick p =
        ({ e with openedOrders := e.openedOrders.erase p }.recordClosed p o, true) ∧
      BookInv (e.closeTrade tick p).1 [] := by
  obtain ⟨o, hClose⟩ := Order.exists_closeAt tick (h.isOpen p hp)
  have hEq := closeTrade_eq hClose hp
  refine ⟨o, hClose, hEq, ?_⟩
  rw [hEq]
  exact (h.takeOne hp).recordClosed hClose

end BookInv

end FxEngine

end Fxquant
