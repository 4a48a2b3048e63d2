import Fxquant.Ladder.Reachable

/-!
# Which ticks lose orders

`check_orders_closing` takes every order that is ready to close out of the open list, and
returns once the first of them is closed. The others are in no list from then on. A run loses no
order exactly when no tick of it makes more than one order ready to close.
-/

namespace Fxquant

open FxEngine

namespace FxEngine

/-- Every order that was ever announced as opened is in exactly one of the two lists. -/
def NoOrderLost (e : FxEngine) : Prop :=
  ∀ event ∈ e.orderEvents, event.action = .opened →
    (e.openedOrders ++ e.closedOrders).count event.optr = 1

instance (e : FxEngine) : Decidable e.NoOrderLost :=
  inferInstanceAs (Decidable (∀ event ∈ e.orderEvents, _ → _))

theorem BookInv.exists_opened_iff {e : FxEngine} {flight : List Ptr} (h : BookInv e flight) (p : Ptr) :
    (∃ event ∈ e.orderEvents, event.action = .opened ∧ event.optr = p) ↔ p < e.nextPtr := by
  have hMark : (∃ event ∈ e.orderEvents, event.action = .opened ∧ event.optr = p) ↔
      Lifecycle.Mark.begun p ∈ e.marks := by
    rw [marks, List.mem_filterMap]
    refine exists_congr fun event => and_congr_right fun _ => ?_
    obtain ⟨action, optr, clone⟩ := event
    cases action <;> simp [OrderEvent.mark?]
  rw [hMark, ← List.count_pos_iff, ← Lifecycle.begins, h.begins]
  split_ifs with hp <;> simp [hp]

theorem BookInv.noOrderLost_iff {e : FxEngine} (h : BookInv e []) : e.NoOrderLost ↔ Held e [] := by
  have hNodup : (e.openedOrders ++ e.closedOrders).Nodup := h.nodup
  constructor
  · intro hLost p hp
    obtain ⟨event, hEvent, hAction, rfl⟩ := (h.exists_opened_iff p).mpr hp
    exact List.count_pos_iff.mp (by rw [List.nil_append, hLost event hEvent hAction]; exact Nat.one_pos)
  · intro hHeld event hEvent hAction
    have hp : event.optr < e.nextPtr := (h.exists_opened_iff _).mp ⟨event, hEvent, hAction, rfl⟩
    exact List.count_eq_one_of_mem hNodup (hHeld _ hp)

end FxEngine

namespace Ladder

def newReady (env : Env) (s : State) (tick : TickData) (type : OrderType) : ℕ :=
  if sends env tick type (asks env s tick type) &&
    (newOrder env tick type).any (fun o => o.checkClose tick) then 1 else 0

/-- The number of orders that a tick makes ready to close: the open ones that it brings to their
stop loss or take profit, and those it opens beyond theirs. -/
def readyToClose (env : Env) (s : State) (tick : TickData) : ℕ :=
  (s.closingOrders tick).length + newReady env s tick .buyOrder + newReady env s tick .sellOrder

/-- A tick leaves every order in exactly one list, and every order that was ready to close
in the closed list with one closed event. -/
def KeepsOrders (env : Env) (s : State) (tick : TickData) : Prop :=
  (s.onTick env tick).engine.NoOrderLost ∧
    ∀ p ∈ (s.opened env tick).closingOrders tick, p ∈ (s.onTick env tick).engine.closedOrders ∧
      Lifecycle.ends (s.onTick env tick).engine.marks p = 1

namespace State

theorem closingOrders_congr {s s' : State} {tick : TickData} (h : s'.engine = s.engine) :
    s'.closingOrders tick = s.closingOrders tick := by
  rw [closingOrders, closingOrders, h]

theorem length_closingOrders_sendIf {env : Env} {s : State} {tick : TickData} {type : OrderType}
    {b : Bool} (h : s.engine.BookInv []) :
    ((s.sendIf env tick type b).closingOrders tick).length = (s.closingOrders tick).length +
      if sends env tick type b && (newOrder env tick type).any (fun o => o.checkClose tick)
        then 1 else 0 := by
  rcases sendIf_cases env s tick type b with ⟨hSends, n, hEngine⟩ | ⟨o, hSends, hNew, hEngine⟩
  · rw [closingOrders, hEngine, hSends]
    rfl
  · have hOld : ∀ p ∈ s.engine.openedOrders, ((s.sendIf env tick type b).engine.heap p).checkClose tick =
        (s.engine.heap p).checkClose tick := by
      intro p hp
      have hLt : p < s.engine.nextPtr := h.allocated p (by simp [hp])
      rw [hEngine, place_heap_of_lt _ hLt]
    have hNewReady : ((s.sendIf env tick type b).engine.heap s.engine.nextPtr).checkClose tick =
        o.checkClose tick := by
      rw [hEngine, place_heap_self]
      rfl
    have hOpened : (s.sendIf env tick type b).engine.openedOrders =
        s.engine.openedOrders ++ [s.engine.nextPtr] := by
      rw [hEngine]
      rfl
    rw [closingOrders, hOpened, List.filter_append, List.filter_congr hOld, List.length_append,
      hSends, hNew, closingOrders]
    congr 1
    rw [List.filter_singleton, hNewReady]
    cases hReady : o.checkClose tick <;> simp [hReady]

theorem length_closingOrders_opened (env : Env) {s : State} (tick : TickData)
    (h : s.engine.BookInv []) :
    ((s.opened env tick).closingOrders tick).length = readyToClose env s tick := by
  have hInit : (s.initializeCompute env tick).engine.BookInv [] := by simpa using h
  rw [opened, tryOpeningOrders_eq, length_closingOrders_sendIf (bookInv_sendIf (.inl rfl) hInit),
    length_closingOrders_sendIf hInit, closingOrders_congr (initializeCompute_engine env s tick)]
  rfl

theorem held_sendIf {env : Env} {s : State} {tick : TickData} {type : OrderType} {b : Bool}
    (h : Held s.engine []) : Held (s.sendIf env tick type b).engine [] := by
  rcases sendIf_cases env s tick type b with ⟨_, n, hEngine⟩ | ⟨o, _, _, hEngine⟩
  · rw [hEngine]
    exact h
  · rw [hEngine]
    intro p hp
    rcases Nat.lt_succ_iff_lt_or_eq.mp hp with hp | rfl
    · have hMem := h p hp
      simp only [List.nil_append, List.mem_append] at hMem
      simp only [place, List.nil_append, List.mem_append]
      tauto
    · simp [place]

theorem held_opened (env : Env) {s : State} (tick : TickData) (h : Held s.engine []) :
    Held (s.opened env tick).engine [] := by
  rw [opened, tryOpeningOrders_eq]
  exact held_sendIf (held_sendIf (by simpa using h))

/-! ### Where the orders of the two lists go -/

def listed (s : State) : List Ptr := s.engine.openedOrders ++ s.engine.closedOrders

/-- The orders that are ready to close, but for the first, leave both lists. -/
theorem listed_checkOrdersClosing {s : State} (tick : TickData) (h : s.engine.BookInv []) :
    (((s.checkOrdersClosing tick).1.listed) ++ (s.closingOrders tick).tail).Perm s.listed := by
  cases hClosing : s.closingOrders tick with
  | nil => simp [checkOrdersClosing_of_nil hClosing]
  | cons p rest =>
    obtain ⟨o, _, hEq⟩ := checkOrdersClosing_of_cons h hClosing
    have hPerm : (s.closingOrders tick ++ (s.extracted tick).openedOrders).Perm
        s.engine.openedOrders := List.filter_append_perm _ _
    rw [hClosing] at hPerm
    rw [hEq, List.tail_cons]
    calc
      (s.extracted tick).openedOrders ++ (s.engine.closedOrders ++ [p]) ++ rest
        = (s.extracted tick).openedOrders ++ (s.engine.closedOrders ++ p :: rest) := by simp
      List.Perm _ ((s.extracted tick).openedOrders ++ (p :: rest ++ s.engine.closedOrders)) :=
        List.perm_append_comm.append_left _
      List.Perm _ (p :: rest ++ (s.extracted tick).openedOrders ++ s.engine.closedOrders) := by
        rw [← List.append_assoc]
        exact List.perm_append_comm.append_right _
      List.Perm _ s.listed := hPerm.append_right _

theorem listed_closeCycle (env : Env) {s : State} (tick : TickData) (h : s.engine.BookInv []) :
    (s.closeCycle env tick).listed.Perm s.listed := by
  rw [closeCycle]
  split
  · obtain ⟨_, hOpened, hClosed, _⟩ := h.closeAllTrades tick
    change ((s.engine.closeAllTrades tick).openedOrders ++
      (s.engine.closeAllTrades tick).closedOrders).Perm _
    rw [hOpened, hClosed, List.nil_append]
    exact List.perm_append_comm
  · exact List.Perm.refl _

theorem listed_closeIfAllowed (env : Env) {s : State} (tick : TickData) (changeLots : Order → ℚ)
    {found : Option Ptr} (hInv : s.engine.BookInv [])
    (hFound : ∀ p, found = some p → p ∈ s.engine.openedOrders) :
    (s.closeIfAllowed env tick changeLots found).1.listed.Perm s.listed := by
  rcases closeIfAllowed_cases env tick changeLots hInv hFound with
    ⟨hEq, _⟩ | ⟨p, o, _, hMem, _, _, hEq⟩
  · rw [hEq]
  · rw [hEq]
    calc
      List.Perm (s.engine.openedOrders.erase p ++ (s.engine.closedOrders ++ [p]))
          (s.engine.openedOrders.erase p ++ ([p] ++ s.engine.closedOrders)) :=
        List.perm_append_comm.append_left _
      List.Perm _ (p :: s.engine.openedOrders.erase p ++ s.engine.closedOrders) := List.perm_middle
      List.Perm _ s.listed := (List.perm_cons_erase hMem).symm.append_right _

/-- Of the orders listed when the stop losses and take profits are checked, a tick loses those
that are ready to close, but for the first. -/
theorem listed_onTick (env : Env) {s : State} (tick : TickData) (h : s.engine.BookInv []) :
    ((s.onTick env tick).listed ++ ((s.opened env tick).closingOrders tick).tail).Perm
      (s.opened env tick).listed := by
  have hSoft : (s.onTick env tick).listed.Perm (s.settled env tick).listed := by
    have hSettled := bookInv_settled env tick h
    rw [onTick, isSoftTpClosed_eq]
    split
    · exact List.Perm.refl _
    · exact (listed_closeIfAllowed env tick _ (bookInv_softBuy env tick hSettled)
        fun _ hp => (findProfitableSell_spec hp).1).trans
          (listed_closeIfAllowed env tick _ hSettled fun _ hp => (findProfitableBuy_spec hp).1)
  have hCycle : (s.settled env tick).listed.Perm (s.checked env tick).listed :=
    listed_closeCycle env tick (bookInv_checked env tick h)
  exact ((hSoft.trans hCycle).append_right _).trans
    (listed_checkOrdersClosing tick (bookInv_opened env tick h))

theorem held_onTick_iff {env : Env} {s : State} {tick : TickData} (h : s.engine.BookInv [])
    (hHeld : Held s.engine []) :
    Held (s.onTick env tick).engine [] ↔ ((s.opened env tick).closingOrders tick).tail = [] := by
  have hPerm := listed_onTick env tick h
  have hOpened := bookInv_opened env tick h
  have hNext : (s.onTick env tick).engine.nextPtr = (s.opened env tick).engine.nextPtr :=
    (onlyCloses_onTick env tick h).nextPtr
  constructor
  · intro hAfter
    rw [List.eq_nil_iff_forall_not_mem]
    intro p hp
    have hListed : p ∈ (s.opened env tick).listed := hPerm.subset (List.mem_append_right _ hp)
    have hLt : p < (s.onTick env tick).engine.nextPtr := by
      rw [hNext]
      exact hOpened.allocated p hListed
    have hNodup := (hPerm.nodup_iff.mpr hOpened.nodup)
    exact (List.nodup_append'.mp hNodup).2.2 (hAfter p hLt) hp
  · intro hTail p hp
    rw [hTail, List.append_nil] at hPerm
    rw [hNext] at hp
    exact hPerm.symm.subset (held_opened env tick hHeld p hp)

theorem mem_closedOrders_of_closingOrders {env : Env} {s : State} {tick : TickData} {p : Ptr}
    (h : s.engine.BookInv []) (hClosing : (s.opened env tick).closingOrders tick = [p]) :
    p ∈ (s.onTick env tick).engine.closedOrders := by
  have hOpened := bookInv_opened env tick h
  obtain ⟨o, _, hEq⟩ := checkOrdersClosing_of_cons hOpened hClosing
  have hChecked : p ∈ (s.checked env tick).engine.closedOrders := by
    rw [checked, hEq]
    simp
  exact (onlyCloses_onTick_of_checked env tick h).closedOrders.subset hChecked

end State

theorem keepsOrders_iff {env : Env} {s : State} {tick : TickData} (h : s.engine.BookInv [])
    (hHeld : Held s.engine []) : KeepsOrders env s tick ↔ readyToClose env s tick ≤ 1 := by
  have hAfter := State.bookInv_onTick env tick h
  have hLength := State.length_closingOrders_opened env tick h
  rw [KeepsOrders, hAfter.noOrderLost_iff, State.held_onTick_iff h hHeld, ← hLength]
  constructor
  · rintro ⟨hTail, _⟩
    cases hClosing : (s.opened env tick).closingOrders tick with
    | nil => exact Nat.zero_le _
    | cons p rest =>
      rw [hClosing, List.tail_cons] at hTail
      rw [hTail]
      exact le_rfl
  · intro hLe
    cases hClosing : (s.opened env tick).closingOrders tick with
    | nil => exact ⟨rfl, fun p hp => absurd hp List.not_mem_nil⟩
    | cons p rest =>
      have hRest : rest = [] := by
        rw [hClosing, List.length_cons] at hLe
        exact List.length_eq_zero_iff.mp (Nat.le_zero.mp (Nat.le_of_succ_le_succ hLe))
      subst hRest
      refine ⟨rfl, fun q hq => ?_⟩
      obtain rfl := List.mem_singleton.mp hq
      have hMem := State.mem_closedOrders_of_closingOrders h hClosing
      have hNodup : (s.onTick env tick).engine.closedOrders.Nodup :=
        (List.nodup_append'.mp hAfter.nodup).2.1
      exact ⟨hMem, by rw [hAfter.ends_eq_count, List.count_eq_one_of_mem hNodup hMem]⟩

def fiftyPoints : Env where
  symbol := .eurusd
  params := {
    volume := 1 / 10, sl := 50, tp := 50, softTp := 0, step := 100, lvlTolerance := 5
    tradesPerLvl := 1, closeCycleOnProfit := 0, sectionsInHalfRange := 100, sectionsOffset := 0
    maxLotsAllowed := 0, maxSpread := 0, plr := 0 }
  outOfRange := fun _ => Doubles.intMin
  accepted := by decide +kernel

end Ladder

end Fxquant
