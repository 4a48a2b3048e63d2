import Fxquant.Engine.Book

/-!
# Submitted orders and the default strategy

The way of an order that a client submits: `submit_order` puts a clone of it into the new
orders, `add_new_orders` passes the new orders on to the pending ones, and
`default_strategy::on_tick` moves it to the opened and then to the closed orders.
-/

namespace Fxquant.FxEngine

/-- `submit_order`, with the id that it returns; a null pointer is refused. -/
def submitOrder (e : FxEngine) : Option Order → FxEngine × Option ℕ
  | some o => ({ e.allocate o with newOrders := e.newOrders ++ [e.nextPtr] }, some o.id)
  | none => (e, none)

def addNewOrders (e : FxEngine) : FxEngine :=
  e.newOrders.foldl (fun e optr =>
    { e with pendingOrders := e.pendingOrders ++ [optr] }.pushEvent .submitted optr) e

def openEach (tick : TickData) : FxEngine → List Ptr → FxEngine
  | e, [] => e
  | e, optr :: rest =>
    match (e.heap optr).openAt tick with
    | some o =>
      openEach tick
        ({ e with
          heap := Function.update e.heap optr o
          openedOrders := e.openedOrders ++ [optr] }.pushEvent .opened optr) rest
    | none => openEach tick e rest

def defaultOnTick (e : FxEngine) (tick : TickData) : FxEngine :=
  let openingOrders := e.pendingOrders.filter fun optr => (e.heap optr).checkOpen tick
  let e := openEach tick
    { e with
      pendingOrders := e.pendingOrders.filter fun optr => !(e.heap optr).checkOpen tick }
    openingOrders
  let closingOrders := e.openedOrders.filter fun optr => (e.heap optr).checkClose tick
  closeEach tick
    { e with
      openedOrders := e.openedOrders.filter fun optr => !(e.heap optr).checkClose tick }
    closingOrders

def listed (e : FxEngine) : List Ptr :=
  e.newOrders ++ e.pendingOrders ++ e.openedOrders ++ e.closedOrders

def submitted (e : FxEngine) (p : Ptr) : ℕ :=
  e.orderEvents.countP fun event => event.action == .submitted && event.optr == p

theorem addNewOrders_eq (e : FxEngine) :
    e.addNewOrders = { e with
      pendingOrders := e.pendingOrders ++ e.newOrders
      orderEvents := e.orderEvents ++ e.newOrders.map fun p => ⟨.submitted, p, e.heap p⟩ } := by
  have hLoop : ∀ (l : List Ptr) (e : FxEngine), l.foldl (fun e optr =>
      { e with pendingOrders := e.pendingOrders ++ [optr] }.pushEvent .submitted optr) e = { e with
        pendingOrders := e.pendingOrders ++ l
        orderEvents := e.orderEvents ++ l.map fun p => ⟨.submitted, p, e.heap p⟩ } := by
    intro l
    induction l with
    | nil => simp
    | cons p l ih =>
      intro e
      rw [List.foldl_cons, ih]
      simp [pushEvent]
  exact hLoop e.newOrders e

/-- An order after `open(tick)`, which leaves it as it is unless it is ready. -/
def afterOpen (tick : TickData) (o : Order) : Order := (o.openAt tick).getD o

def afterClose (tick : TickData) (o : Order) : Order := (o.closeAt tick).getD o

theorem openAt_of_checkOpen {o : Order} {tick : TickData} (h : o.checkOpen tick = true) :
    o.openAt tick = some (afterOpen tick o) := by
  have hOpen : o.openAt tick = some _ := if_pos h
  rw [afterOpen, hOpen, Option.getD_some]

theorem closeAt_of_isOpen {o : Order} (tick : TickData) (h : o.isOpen = true) :
    o.closeAt tick = some (afterClose tick o) := by
  obtain ⟨o', hClose⟩ := Order.exists_closeAt tick h
  rw [afterClose, hClose, Option.getD_some]

/-- What a loop over distinct orders makes of the heap, one step at a time. -/
theorem update_then_each (heap : Ptr → Order) (f : Order → Order) {p : Ptr} {l : List Ptr}
    (hp : p ∉ l) :
    (fun q => if q ∈ l then f (Function.update heap p (f (heap p)) q)
      else Function.update heap p (f (heap p)) q) =
      fun q => if q ∈ p :: l then f (heap q) else heap q := by
  funext q
  by_cases hq : q = p
  · subst hq
    simp [hp]
  · simp [hq]

theorem map_update {β : Type*} (heap : Ptr → Order) (f : Ptr → Order → β) {p : Ptr} (o : Order)
    {l : List Ptr} (hp : p ∉ l) :
    (l.map fun q => f q (Function.update heap p o q)) = l.map fun q => f q (heap q) := by
  apply List.map_congr_left
  intro q hq
  rw [Function.update_of_ne (ne_of_mem_of_not_mem hq hp)]

theorem openEach_eq (tick : TickData) {e : FxEngine} {l : List Ptr} (hNodup : l.Nodup)
    (hReady : ∀ p ∈ l, (e.heap p).checkOpen tick = true) :
    openEach tick e l = { e with
      heap := fun p => if p ∈ l then afterOpen tick (e.heap p) else e.heap p
      openedOrders := e.openedOrders ++ l
      orderEvents := e.orderEvents ++ l.map fun p => ⟨.opened, p, afterOpen tick (e.heap p)⟩ } := by
  induction l generalizing e with
  | nil => simp [openEach]
  | cons p l ih =>
    obtain ⟨hFresh, hNodup⟩ := List.nodup_cons.mp hNodup
    rw [openEach]
    simp only [openAt_of_checkOpen (hReady p List.mem_cons_self)]
    rw [ih hNodup fun q hq => by
      simp only [pushEvent, Function.update_of_ne (ne_of_mem_of_not_mem hq hFresh)]
      exact hReady q (List.mem_cons_of_mem _ hq)]
    have hHeap := update_then_each e.heap (afterOpen tick) hFresh
    have hEvents := map_update e.heap (fun q o => (⟨.opened, q, afterOpen tick o⟩ : OrderEvent))
      (afterOpen tick (e.heap p)) hFresh
    simp only [pushEvent, hHeap, hEvents, Function.update_self, List.append_assoc,
      List.singleton_append, List.map_cons]

theorem closeEach_eq (tick : TickData) {e : FxEngine} {l : List Ptr} (hNodup : l.Nodup)
    (hOpen : ∀ p ∈ l, (e.heap p).isOpen = true) :
    closeEach tick e l = { e with
      heap := fun p => if p ∈ l then afterClose tick (e.heap p) else e.heap p
      closedOrders := e.closedOrders ++ l
      orderEvents := e.orderEvents ++ l.map fun p => ⟨.closed, p, afterClose tick (e.heap p)⟩ } := by
  induction l generalizing e with
  | nil => simp [closeEach]
  | cons p l ih =>
    obtain ⟨hFresh, hNodup⟩ := List.nodup_cons.mp hNodup
    rw [closeEach]
    simp only [closeAt_of_isOpen tick (hOpen p List.mem_cons_self)]
    rw [ih hNodup fun q hq => by
      rw [recordClosed_heap, Function.update_of_ne (ne_of_mem_of_not_mem hq hFresh)]
      exact hOpen q (List.mem_cons_of_mem _ hq)]
    have hHeap := update_then_each e.heap (afterClose tick) hFresh
    have hEvents := map_update e.heap (fun q o => (⟨.closed, q, afterClose tick o⟩ : OrderEvent))
      (afterClose tick (e.heap p)) hFresh
    simp only [recordClosed, pushEvent, hHeap, hEvents, Function.update_self, List.append_assoc,
      List.singleton_append, List.map_cons]

theorem countP_submitted_eq_zero {events : List OrderEvent} {p : Ptr}
    (h : ∀ event ∈ events, event.action ≠ .submitted) :
    events.countP (fun event => event.action == .submitted && event.optr == p) = 0 := by
  rw [List.countP_eq_zero]
  intro event hEvent
  simp [h event hEvent]

/-- Entries that pass a test move from one list to the next, and on from there. -/
theorem perm_of_moves (pending opened : List Ptr) (opens closes : Ptr → Bool) :
    (pending.filter (fun p => !opens p) ++
        (opened ++ pending.filter opens).filter (fun p => !closes p) ++
        (opened ++ pending.filter opens).filter closes).Perm (pending ++ opened) := by
  rw [List.perm_iff_count]
  intro p
  have hPending := (List.filter_append_perm opens pending).count_eq p
  have hOpened := (List.filter_append_perm closes (opened ++ pending.filter opens)).count_eq p
  simp only [List.count_append] at hPending hOpened ⊢
  omega

/-! ### A tick of the default strategy -/

def opening (e : FxEngine) (tick : TickData) : List Ptr :=
  e.pendingOrders.filter fun p => (e.heap p).checkOpen tick

/-- An order once the orders that are ready have been opened. -/
def heapOpened (e : FxEngine) (tick : TickData) (p : Ptr) : Order :=
  if p ∈ e.opening tick then afterOpen tick (e.heap p) else e.heap p

def closing (e : FxEngine) (tick : TickData) : List Ptr :=
  (e.openedOrders ++ e.opening tick).filter fun p => (e.heapOpened tick p).checkClose tick

def heapClosed (e : FxEngine) (tick : TickData) (p : Ptr) : Order :=
  if p ∈ e.closing tick then afterClose tick (e.heapOpened tick p) else e.heapOpened tick p

theorem heapOpened_of_not_mem {e : FxEngine} {tick : TickData} {p : Ptr} (h : p ∉ e.opening tick) :
    e.heapOpened tick p = e.heap p := if_neg h

theorem heapClosed_of_not_mem {e : FxEngine} {tick : TickData} {p : Ptr} (h : p ∉ e.closing tick) :
    e.heapClosed tick p = e.heapOpened tick p := if_neg h

/-- An order that was not ready is still as it was when the tick has been handled. -/
theorem checkOpen_of_waiting {e : FxEngine} {tick : TickData} {p : Ptr}
    (hDisjoint : e.pendingOrders.Disjoint e.openedOrders)
    (hp : p ∈ e.pendingOrders.filter fun p => !(e.heap p).checkOpen tick) :
    (e.heapClosed tick p).checkOpen tick = false := by
  obtain ⟨hMem, hNot⟩ := List.mem_filter.mp hp
  rw [Bool.not_eq_true'] at hNot
  have hNotOpening : p ∉ e.opening tick := fun hOpening => by
    have hReady := (List.mem_filter.mp hOpening).2
    rw [hNot] at hReady
    contradiction
  have hNotClosing : p ∉ e.closing tick := fun hClosing => by
    rcases List.mem_append.mp (List.mem_of_mem_filter hClosing) with hp' | hp'
    · exact hDisjoint hMem hp'
    · exact hNotOpening hp'
  rw [heapClosed_of_not_mem hNotClosing, heapOpened_of_not_mem hNotOpening, hNot]

theorem checkClose_of_staying {e : FxEngine} {tick : TickData} {p : Ptr}
    (hp : p ∈ (e.openedOrders ++ e.opening tick).filter
      fun p => !(e.heapOpened tick p).checkClose tick) :
    (e.heapClosed tick p).checkClose tick = false := by
  obtain ⟨_, hNot⟩ := List.mem_filter.mp hp
  rw [Bool.not_eq_true'] at hNot
  have hNotClosing : p ∉ e.closing tick := fun hClosing => by
    have hReady := (List.mem_filter.mp hClosing).2
    rw [hNot] at hReady
    contradiction
  rw [heapClosed_of_not_mem hNotClosing, hNot]

/-- What the default strategy does on a tick. -/
theorem defaultOnTick_exact (tick : TickData) {e : FxEngine}
    (h : (e.pendingOrders ++ e.openedOrders).Nodup) :
    e.defaultOnTick tick = { e with
      heap := e.heapClosed tick
      pendingOrders := e.pendingOrders.filter fun p => !(e.heap p).checkOpen tick
      openedOrders := (e.openedOrders ++ e.opening tick).filter
        fun p => !(e.heapOpened tick p).checkClose tick
      closedOrders := e.closedOrders ++ e.closing tick
      orderEvents := e.orderEvents ++
        (e.opening tick).map (fun p => ⟨.opened, p, e.heapOpened tick p⟩) ++
        (e.closing tick).map fun p => ⟨.closed, p, e.heapClosed tick p⟩ } := by
  have hOpening : (e.opening tick).Nodup := (List.nodup_append'.mp h).1.filter _
  have hClosing : (e.closing tick).Nodup := (List.nodup_append_comm.mp
    (h.sublist (List.filter_sublist.append_right _))).filter _
  have hOpens := openEach_eq tick
    (e := { e with pendingOrders := e.pendingOrders.filter fun p => !(e.heap p).checkOpen tick })
    hOpening fun p hp => (List.mem_filter.mp hp).2
  have hCloses := closeEach_eq tick
    (e := { e with
      heap := e.heapOpened tick
      pendingOrders := e.pendingOrders.filter fun p => !(e.heap p).checkOpen tick
      openedOrders := (e.openedOrders ++ e.opening tick).filter
        fun p => !(e.heapOpened tick p).checkClose tick
      orderEvents := e.orderEvents ++
        (e.opening tick).map fun p => ⟨.opened, p, afterOpen tick (e.heap p)⟩ })
    hClosing fun p hp => Order.isOpen_of_checkClose (List.mem_filter.mp hp).2
  have hLoop : e.defaultOnTick tick = closeEach tick { e with
      heap := e.heapOpened tick
      pendingOrders := e.pendingOrders.filter fun p => !(e.heap p).checkOpen tick
      openedOrders := (e.openedOrders ++ e.opening tick).filter
        fun p => !(e.heapOpened tick p).checkClose tick
      orderEvents := e.orderEvents ++
        (e.opening tick).map fun p => ⟨.opened, p, afterOpen tick (e.heap p)⟩ } (e.closing tick) := by
    rw [opening] at hOpens
    rw [defaultOnTick]
    simp only [hOpens]
    rfl
  have hOpened : (e.opening tick).map
      (fun p => (⟨.opened, p, afterOpen tick (e.heap p)⟩ : OrderEvent)) =
        (e.opening tick).map fun p => ⟨.opened, p, e.heapOpened tick p⟩ :=
    List.map_congr_left fun p hp => by rw [heapOpened, if_pos hp]
  have hClosed : (e.closing tick).map
      (fun p => (⟨.closed, p, afterClose tick (e.heapOpened tick p)⟩ : OrderEvent)) =
        (e.closing tick).map fun p => ⟨.closed, p, e.heapClosed tick p⟩ :=
    List.map_congr_left fun p hp => by rw [heapClosed, if_pos hp]
  rw [hLoop, hCloses]
  simp only [hOpened, hClosed]
  rfl

/-- The pending and opened orders go on waiting, stay open or are closed, and none is submitted
again. -/
theorem defaultOnTick_eq (tick : TickData) {e : FxEngine} (h : e.listed.Nodup) :
    ∃ heap waiting staying closing events, e.defaultOnTick tick = { e with
        heap := heap
        pendingOrders := waiting
        openedOrders := staying
        closedOrders := e.closedOrders ++ closing
        orderEvents := e.orderEvents ++ events } ∧
      (waiting ++ staying ++ closing).Perm (e.pendingOrders ++ e.openedOrders) ∧
      ∀ event ∈ events, event.action ≠ .submitted ∧
        event.optr ∈ e.pendingOrders ++ e.openedOrders := by
  have hBoth : (e.pendingOrders ++ e.openedOrders).Nodup :=
    h.sublist (((List.sublist_append_right _ _).append_right _).trans (List.sublist_append_left _ _))
  have hOpening : e.opening tick ⊆ e.pendingOrders ++ e.openedOrders := fun p hp =>
    List.mem_append_left _ (List.mem_of_mem_filter hp)
  have hExact := defaultOnTick_exact tick hBoth
  have hPerm := perm_of_moves e.pendingOrders e.openedOrders (fun p => (e.heap p).checkOpen tick)
    fun p => (e.heapOpened tick p).checkClose tick
  rw [List.append_assoc] at hExact
  refine ⟨_, _, _, _, _, hExact, hPerm, ?_⟩
  intro event hEvent
  rcases List.mem_append.mp hEvent with hEvent | hEvent
  · obtain ⟨p, hp, rfl⟩ := List.mem_map.mp hEvent
    exact ⟨nofun, hOpening hp⟩
  · obtain ⟨p, hp, rfl⟩ := List.mem_map.mp hEvent
    refine ⟨nofun, ?_⟩
    rcases List.mem_append.mp (List.mem_of_mem_filter hp) with hp | hp
    · exact List.mem_append_right _ hp
    · exact hOpening hp

/-- A tick handled as it should be: `opening` are the orders to open, `closing` those to close
after that, and `mid` is the heap in between. -/
structure HandlesTick (e e' : FxEngine) (tick : TickData) (opening closing : List Ptr)
    (mid : Ptr → Order) : Prop where
  opening_eq : opening = e.pendingOrders.filter fun p => (e.heap p).checkOpen tick
  opens : ∀ p ∈ opening, (e.heap p).openAt tick = some (mid p)
  opensOnly : ∀ p, p ∉ opening → mid p = e.heap p
  closing_eq : closing = (e.openedOrders ++ opening).filter fun p => (mid p).checkClose tick
  closes : ∀ p ∈ closing, (mid p).closeAt tick = some (e'.heap p)
  closesOnly : ∀ p, p ∉ closing → e'.heap p = mid p
  pendingOrders : e'.pendingOrders = e.pendingOrders.filter fun p => !(e.heap p).checkOpen tick
  openedOrders : e'.openedOrders =
    (e.openedOrders ++ opening).filter fun p => !(mid p).checkClose tick
  closedOrders : e'.closedOrders = e.closedOrders ++ closing
  conserved : (e'.pendingOrders ++ e'.openedOrders ++ closing).Perm (e.pendingOrders ++ e.openedOrders)
  distinct : (e'.pendingOrders ++ e'.openedOrders ++ closing).Nodup
  events : e'.orderEvents = e.orderEvents ++ opening.map (fun p => ⟨.opened, p, mid p⟩) ++
    closing.map fun p => ⟨.closed, p, e'.heap p⟩
  noneToOpen : ∀ p ∈ e'.pendingOrders, (e'.heap p).checkOpen tick = false
  noneToClose : ∀ p ∈ e'.openedOrders, (e'.heap p).checkClose tick = false

/-- Whatever mix of orders is pending and open, the default strategy opens and closes those that are
ready, and leaves none that is. -/
theorem defaultOnTick_handles (tick : TickData) {e : FxEngine} (hPending : e.pendingOrders.Nodup)
    (hUnopened : ∀ p ∈ e.pendingOrders, (e.heap p).isOpened = false) (hOpened : e.openedOrders.Nodup)
    (hOpen : ∀ p ∈ e.openedOrders, (e.heap p).isOpened = true ∧ (e.heap p).isClosed = false) :
    ∃ opening closing mid, HandlesTick e (e.defaultOnTick tick) tick opening closing mid := by
  have hDisjoint : e.pendingOrders.Disjoint e.openedOrders := by
    intro p hp hp'
    have hContra := (hOpen p hp').1
    rw [hUnopened p hp] at hContra
    cases hContra
  have hBoth : (e.pendingOrders ++ e.openedOrders).Nodup :=
    List.nodup_append'.mpr ⟨hPending, hOpened, hDisjoint⟩
  have hPerm := perm_of_moves e.pendingOrders e.openedOrders (fun p => (e.heap p).checkOpen tick)
    fun p => (e.heapOpened tick p).checkClose tick
  rw [defaultOnTick_exact tick hBoth]
  refine ⟨e.opening tick, e.closing tick, e.heapOpened tick, ?_⟩
  exact {
    opening_eq := rfl
    opens := fun p hp => by
      rw [heapOpened, if_pos hp]
      exact openAt_of_checkOpen (List.mem_filter.mp hp).2
    opensOnly := fun p => heapOpened_of_not_mem
    closing_eq := rfl
    closes := fun p hp => by
      change _ = some (e.heapClosed tick p)
      rw [heapClosed, if_pos hp]
      exact closeAt_of_isOpen tick (Order.isOpen_of_checkClose (List.mem_filter.mp hp).2)
    closesOnly := fun p => heapClosed_of_not_mem
    pendingOrders := rfl
    openedOrders := rfl
    closedOrders := rfl
    conserved := hPerm
    distinct := hPerm.nodup_iff.mpr hBoth
    events := rfl
    noneToOpen := fun p => checkOpen_of_waiting hDisjoint
    noneToClose := fun p => checkClose_of_staying }

/-- A sell limit below the market and a buy stop above it are pending, a buy in profit is open. -/
def threeOrders : FxEngine where
  heap := fun p =>
    if p = 0 then
      { type := .sellLimitOrder, id := 1, symbol := .eurusd, volume := 1, orderPrice := 1 }
    else if p = 1 then
      { type := .buyStopOrder, id := 2, symbol := .eurusd, volume := 1, orderPrice := 2 }
    else
      { type := .buyOrder, id := 3, symbol := .eurusd, volume := 1, orderPrice := 1
        openPrice := some 1, takeProfit := some (3 / 2) }
  nextPtr := 3
  pendingOrders := [0, 1]
  openedOrders := [2]

theorem threeOrders_handled :
    ∃ opening closing mid, HandlesTick threeOrders (threeOrders.defaultOnTick ⟨3 / 2, 8 / 5, 0⟩)
      ⟨3 / 2, 8 / 5, 0⟩ opening closing mid :=
  defaultOnTick_handles ⟨3 / 2, 8 / 5, 0⟩ (by decide) (by decide) (by decide) (by decide)

end Fxquant.FxEngine
