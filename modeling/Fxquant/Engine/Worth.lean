import Fxquant.Engine.BookInvariant
import Fxquant.Engine.Stats

/-!
# What a book is worth

The profits of the closed orders and, at the prices of a tick, those of the open ones and of the
ones in flight. Closing orders at a tick turns the second into the first and changes nothing.
-/

namespace Fxquant.FxEngine

/-- What the orders of the closed list from an entry on have earned. -/
def realised (e : FxEngine) (entry : ℕ) : ℚ :=
  ((e.closedOrders.drop entry).map fun p => (e.heap p).profitValue).sum

theorem realised_congr {e e' : FxEngine} {entry : ℕ} (hClosed : e'.closedOrders = e.closedOrders)
    (hHeap : ∀ p ∈ e.closedOrders, e'.heap p = e.heap p) : e'.realised entry = e.realised entry := by
  rw [realised, realised, hClosed]
  congr 1
  apply List.map_congr_left
  intro p hp
  rw [hHeap p (List.mem_of_mem_drop hp)]

theorem BookInv.realised_recordClosed {e : FxEngine} {flight : List Ptr} {p : Ptr} {o : Order}
    {entry : ℕ} (h : BookInv e (p :: flight)) (hEntry : entry ≤ e.closedOrders.length) :
    (e.recordClosed p o).realised entry = e.realised entry + o.profitValue := by
  have hFresh : p ∉ e.closedOrders := fun hp =>
    (List.nodup_cons.mp h.nodup).1 (List.mem_append_right _ hp)
  have hOld := map_recordClosed e (fun _ => Order.profitValue) o
    fun hp => hFresh (List.mem_of_mem_drop (i := entry) hp)
  rw [realised, recordClosed_closedOrders, List.drop_append_of_le_length hEntry, List.map_append,
    List.sum_append, hOld, ← realised]
  simp

theorem BookInv.realised_closeEach {e : FxEngine} {flight : List Ptr} {entry : ℕ} (tick : TickData)
    (h : BookInv e flight) (hEntry : entry ≤ e.closedOrders.length) :
    (FxEngine.closeEach tick e flight).realised entry =
      e.realised entry + (flight.map fun p => (e.heap p).profitAt tick).sum := by
  induction flight generalizing e with
  | nil => simp [FxEngine.closeEach]
  | cons p flight ih =>
    obtain ⟨o, hClose⟩ := Order.exists_closeAt tick (h.isOpen p (by simp))
    have hProfit : o.profitValue = (e.heap p).profitAt tick := by
      rw [Order.profitValue, Order.profit_of_closeAt hClose, Option.getD_some]
    have hFresh : p ∉ flight := fun hp => (List.nodup_cons.mp h.nodup).1 (by simp [hp])
    have hLater := map_recordClosed e (fun _ q => q.profitAt tick) o hFresh
    have hEntry' : entry ≤ (e.recordClosed p o).closedOrders.length := by
      rw [recordClosed_closedOrders, List.length_append]
      exact hEntry.trans (Nat.le_add_right _ _)
    rw [FxEngine.closeEach]
    simp only [hClose]
    rw [ih (h.recordClosed hClose) hEntry', h.realised_recordClosed hEntry, hLater, hProfit,
      List.map_cons, List.sum_cons, add_assoc]

theorem getEquity_eq (e : FxEngine) (tick : TickData) :
    e.getEquity tick = (e.openedOrders.map fun p => (e.heap p).profitAt tick).sum := by
  rw [getEquity, List.sum_eq_foldl, List.foldl_map]

/-- The equity of a book is what closing all its trades realises. -/
theorem BookInv.realised_closeAllTrades {e : FxEngine} {entry : ℕ} (tick : TickData)
    (h : BookInv e []) (hEntry : entry ≤ e.closedOrders.length) :
    (e.closeAllTrades tick).realised entry = e.realised entry + e.getEquity tick := by
  rw [closeAllTrades_eq, h.takeAll.realised_closeEach tick hEntry, getEquity_eq]
  rfl

/-! ### The worth of a book -/

/-- What some orders would earn if they were closed at a tick. -/
def unrealised (e : FxEngine) (tick : TickData) (l : List Ptr) : ℚ :=
  (l.map fun p => (e.heap p).profitAt tick).sum

def worth (e : FxEngine) (flight : List Ptr) (tick : TickData) : ℚ :=
  e.realised 0 + e.unrealised tick (flight ++ e.openedOrders)

@[simp] theorem unrealised_nil (e : FxEngine) (tick : TickData) : e.unrealised tick [] = 0 := rfl

theorem unrealised_cons (e : FxEngine) (tick : TickData) (p : Ptr) (l : List Ptr) :
    e.unrealised tick (p :: l) = (e.heap p).profitAt tick + e.unrealised tick l := List.sum_cons

theorem unrealised_append (e : FxEngine) (tick : TickData) (l l' : List Ptr) :
    e.unrealised tick (l ++ l') = e.unrealised tick l + e.unrealised tick l' := by
  rw [unrealised, List.map_append, List.sum_append]
  rfl

theorem closeProfit_eq_realised (e : FxEngine) : e.calcClosedTradesStats.closeProfit = e.realised 0 :=
  (summarises_profitValues e).closeProfit

/-- The figures that the engine reports of its closed and of its open orders add up to its worth. -/
theorem worth_eq_reported (e : FxEngine) (tick : TickData) :
    e.worth [] tick = e.calcClosedTradesStats.closeProfit + e.getEquity tick := by
  rw [closeProfit_eq_realised, getEquity_eq]
  rfl

theorem worth_forget (e : FxEngine) (flight : List Ptr) (tick : TickData) :
    e.worth [] tick = e.worth flight tick - e.unrealised tick flight := by
  rw [worth, worth, List.nil_append, unrealised_append]
  ring

theorem worth_takeOut (e : FxEngine) {opened taken : List Ptr}
    (hPerm : (taken ++ opened).Perm e.openedOrders) (tick : TickData) :
    worth { e with openedOrders := opened } taken tick = e.worth [] tick := by
  have hSum := (hPerm.map fun p => (e.heap p).profitAt tick).sum_eq
  rw [worth, worth, unrealised, unrealised, List.nil_append, ← hSum]
  rfl

namespace BookInv

variable {e : FxEngine} {flight : List Ptr}

theorem worth_recordClosed {p : Ptr} {o : Order} {tick : TickData} (h : BookInv e (p :: flight))
    (hClose : (e.heap p).closeAt tick = some o) :
    (e.recordClosed p o).worth flight tick = e.worth (p :: flight) tick := by
  have hProfit : o.profitValue = (e.heap p).profitAt tick := by
    rw [Order.profitValue, Order.profit_of_closeAt hClose, Option.getD_some]
  have hFresh : p ∉ flight ++ e.openedOrders := fun hp =>
    (List.nodup_cons.mp h.nodup).1 (List.mem_append_left _ hp)
  have hOthers : (e.recordClosed p o).unrealised tick (flight ++ e.openedOrders) =
      e.unrealised tick (flight ++ e.openedOrders) :=
    congrArg List.sum (map_recordClosed e (fun _ q => q.profitAt tick) o hFresh)
  rw [worth, worth, h.realised_recordClosed (Nat.zero_le _), recordClosed_openedOrders, hOthers,
    hProfit, List.cons_append, unrealised_cons, add_assoc]

/-- Closing everything turns the equity of a book into profit. -/
theorem worth_closeAllTrades (tick : TickData) (h : BookInv e []) :
    (e.closeAllTrades tick).worth [] tick = e.worth [] tick := by
  obtain ⟨_, hOpened, _, _⟩ := h.closeAllTrades tick
  rw [worth_eq_reported, worth_eq_reported, closeProfit_eq_realised, closeProfit_eq_realised,
    h.realised_closeAllTrades tick (Nat.zero_le _), getEquity_eq (e.closeAllTrades tick), hOpened]
  simp

/-- A new object changes the worth of a book by what it would earn. -/
theorem worth_of_new {e' : FxEngine} {o : Order} (h : BookInv e flight)
    (hHeap : e'.heap = Function.update e.heap e.nextPtr o)
    (hOpened : e'.openedOrders = e.openedOrders ++ [e.nextPtr])
    (hClosed : e'.closedOrders = e.closedOrders) (tick : TickData) :
    e'.worth flight tick = e.worth flight tick + o.profitAt tick := by
  have hOld : ∀ p ∈ flight ++ e.openedOrders ++ e.closedOrders, e'.heap p = e.heap p := by
    intro p hp
    rw [hHeap, Function.update_of_ne (h.allocated p hp).ne]
  have hRealised : e'.realised 0 = e.realised 0 :=
    realised_congr hClosed fun p hp => hOld p (List.mem_append_right _ hp)
  have hUnrealised : e'.unrealised tick (flight ++ e.openedOrders) =
      e.unrealised tick (flight ++ e.openedOrders) := by
    apply congrArg List.sum
    apply List.map_congr_left
    intro p hp
    rw [hOld p (List.mem_append_left _ hp)]
  have hNew : e'.unrealised tick [e.nextPtr] = o.profitAt tick := by
    rw [unrealised, hHeap]
    simp
  rw [worth, worth, hOpened, ← List.append_assoc, unrealised_append, hRealised, hUnrealised, hNew,
    add_assoc]

end BookInv

end Fxquant.FxEngine
