import Fxquant.Gui.Drain
import Fxquant.Gui.Publish

/-!
# From the server to every socket

The loops of `gui_server.cpp` over the contexts, together with the send thread of each of them. A
context joins the list before its thread has copied what there is, so a thread enters its loop
with whatever it has been given until then. From there on the loops alone give it data.
-/

namespace Fxquant.Gui.Broadcast

open Feeder Runs SendThread Delivery

/-- `entered` is what was pending in a context when its thread entered its loop, `before` the number
of events added to it by then, and `took` are the bars it has taken since. `adding` is the context
that a loop has added to last. -/
structure State where
  calls : Publish.State Published := {}
  adding : Option ℕ := none
  threads : ℕ → Option SendThread.State := fun _ => none
  entered : ℕ → Context := fun _ => {}
  before : ℕ → ℕ := fun _ => 0
  took : ℕ → Multiset BarData := fun _ => 0

inductive Action where
  | server (a : Cleanup.Action)
  | publish (event : Published)
  | visit
  | enter (p : ℕ) (ctx : Context) (signaled raising : Bool)
  | thread (p : ℕ) (a : SendThread.Action)

/-- `aborted_` is one flag for the loops and for the thread of a context. A write that fails sets it
for the thread first. -/
def told (server : Cleanup.State) (p : ℕ) (t : SendThread.State) : SendThread.State :=
  if (server.clients p).aborted then SendThread.step t .abort else t

namespace State

variable (s : State)

/-- Somebody has added data to a context and has still to signal, with `data_lock_` held. -/
def holds (p : ℕ) : Bool := (s.threads p).any fun t => t.raising

/-- A loop waits for the lock of the next context, and comes to it only after the last one's signal. -/
def waits : Bool := s.adding.any s.holds || s.calls.unvisited.head?.any s.holds

def add (p : ℕ) (t : SendThread.State) (event : Published) : State :=
  { s with
    calls := Publish.visit s.calls
    adding := some p
    threads := Function.update s.threads p (some (SendThread.step t (.publish event)))
    took := Function.update s.took p (s.took p + accepted barsIn t (.publish event)) }

def visit : State :=
  match s.calls.call, s.calls.unvisited.head? with
  | some event, some p =>
    match s.threads p, (s.calls.server.clients p).aborted with
    | some t, false => s.add p t event
    | _, _ => { s with calls := Publish.visit s.calls, adding := some p }
  | _, _ => { s with calls := Publish.visit s.calls, adding := none }

/-- The thread enters its loop. -/
def enter (p : ℕ) (ctx : Context) (signaled raising : Bool) : State :=
  { s with
    threads := Function.update s.threads p (some (told s.calls.server p (start ctx signaled raising)))
    entered := Function.update s.entered p ctx
    before := Function.update s.before p (s.calls.added p).length }

/-- What is done to a context but for the loops, which alone publish. -/
def turn (p : ℕ) (a : SendThread.Action) : State :=
  match s.threads p, a with
  | some _, .publish _ => s
  | some t, a => { s with threads := Function.update s.threads p (some (SendThread.step t a)) }
  | none, _ => s

end State

def step (s : State) : Action → State
  | .server a =>
    let calls := Publish.step s.calls (.server a)
    { s with calls, threads := fun p => (s.threads p).map (told calls.server p) }
  | .publish event => { s with calls := Publish.step s.calls (.publish event) }
  | .visit => if s.waits then s else s.visit
  | .enter p ctx signaled raising =>
    if (s.threads p).isNone && p < s.calls.server.accepted then s.enter p ctx signaled raising else s
  | .thread p a => s.turn p a

/-- Nobody gives up the connection of a context, and all its writes succeed. -/
def FineFor (p : ℕ) : Action → Prop
  | .server (.set q _) => q ≠ p
  | .thread q a => q = p → Fine a
  | _ => True

def ordersAmong (events : List Published) : Multiset OrderInfo := (events.map (ordersIn {})).sum

/-! ### The thread of one context -/

/-- A thread is as a run of its own has left it, which began with the data `ctx` and in which it was
given the events, and has taken bars of them. -/
def Follows (ctx : Context) (took : Multiset BarData) (events : List Published)
    (t : SendThread.State) : Prop :=
  ∃ signaled raising actions, (∀ a ∈ actions, Fine a) ∧
    t = run SendThread.step (start ctx signaled raising) actions ∧
    total SendThread.step (accepted barsIn) (start ctx signaled raising) actions = took ∧
    total SendThread.step (accepted ordersIn) (start ctx signaled raising) actions = ordersAmong events

namespace Follows

variable {ctx : Context} {took : Multiset BarData} {events : List Published} {t : SendThread.State}

theorem enter (ctx : Context) (signaled raising : Bool) :
    Follows ctx 0 [] (start ctx signaled raising) :=
  ⟨signaled, raising, [], List.forall_mem_nil _, rfl, rfl, rfl⟩

/-- A step of the thread adds to the run, and what it accepts to the amounts. -/
theorem step (h : Follows ctx took events t) {a : SendThread.Action} (hFine : Fine a)
    {took' : Multiset BarData} {events' : List Published}
    (hTook : took' = took + accepted barsIn t a)
    (hEvents : ordersAmong events' = ordersAmong events + accepted ordersIn t a) :
    Follows ctx took' events' (SendThread.step t a) := by
  obtain ⟨signaled, raising, actions, hAll, rfl, hBars, hOrders⟩ := h
  refine ⟨signaled, raising, actions ++ [a], ?_, (run_concat _ _ _).symm, ?_, ?_⟩
  · intro b hb
    rcases List.mem_append.mp hb with hOld | hNew
    · exact hAll b hOld
    · rw [List.mem_singleton.mp hNew]
      exact hFine
  · rw [total_append, hBars, total_cons, total_nil, add_zero, hTook]
  · rw [total_append, hOrders, total_cons, total_nil, add_zero, hEvents]

theorem thread (h : Follows ctx took events t) {a : SendThread.Action} (hFine : Fine a)
    (hOwn : ∀ event, a ≠ .publish event) : Follows ctx took events (SendThread.step t a) := by
  have hNothing : ∀ {M : Type} [AddCommMonoid M] (amount : Context → Published → M),
      accepted amount t a = 0 := by
    intro M _ amount
    cases a with
    | publish event => exact absurd rfl (hOwn event)
    | raise => rfl
    | send success => rfl
    | wake => rfl
    | timeOut => rfl
    | cancel => rfl
    | ring => rfl
    | abort => rfl
  exact h.step hFine (by rw [hNothing, add_zero]) (by rw [hNothing, add_zero])

theorem publish (h : Follows ctx took events t) (hFree : t.raising = false) (event : Published) :
    Follows ctx (took + accepted barsIn t (.publish event)) (events ++ [event])
      (SendThread.step t (.publish event)) := by
  refine h.step (a := .publish event) trivial rfl ?_
  rw [accepted, hFree, if_neg Bool.false_ne_true, ordersAmong, List.map_append, List.sum_append,
    List.map_singleton, List.sum_singleton]
  rfl

end Follows

structure Inv (p : ℕ) (s : State) : Prop where
  calls : Publish.Inv s.calls
  up : (s.calls.server.clients p).aborted = false
  before : s.before p ≤ (s.calls.added p).length
  fresh : s.threads p = none → s.took p = 0
  follows : ∀ t, s.threads p = some t →
    Follows (s.entered p) (s.took p) ((s.calls.added p).drop (s.before p)) t

theorem inv_init (p : ℕ) : Inv p {} where
  calls := Publish.inv_init
  up := rfl
  before := le_rfl
  fresh _ := rfl
  follows _ h := absurd h (by simp)

/-! ### One step -/

/-- The flag of a context is set by `set_aborted` of that context alone. -/
theorem aborted_step {s : Cleanup.State} {p : ℕ} (h : (s.clients p).aborted = false)
    {a : Cleanup.Action} (hOther : ∀ thread, a ≠ .set p thread) :
    ((Cleanup.step s a).clients p).aborted = false := by
  have hMove : ∀ q (c : Cleanup.Client), c.aborted = (s.clients q).aborted →
      ((s.setClient q c).clients p).aborted = false := by
    intro q c hSame
    by_cases hHere : p = q
    · subst hHere
      rw [Cleanup.clients_setClient_self, hSame, h]
    · rw [Cleanup.clients_setClient_of_ne _ hHere, h]
  cases a with
  | accept =>
    rw [Cleanup.step]
    split <;> exact h
  | test q thread =>
    rw [Cleanup.step]
    split
    · exact hMove q ((s.clients q).move thread .tested) rfl
    · exact h
  | set q thread =>
    have hNot : p ≠ q := by
      rintro rfl
      exact hOther thread rfl
    rw [Cleanup.step]
    split
    · rw [Cleanup.clients_setClient_of_ne _ hNot, h]
    · exact h
  | notify q thread =>
    rw [Cleanup.step]
    split
    · exact hMove q ((s.clients q).move thread .outside) rfl
    · exact h
  | cleanup =>
    rw [Cleanup.step, (Publish.cleanupThread_keeps s).2]
    exact h
  | wake => exact h
  | shutDown =>
    rw [Cleanup.step]
    split <;> exact h
  | ring =>
    rw [Cleanup.step]
    split <;> exact h

theorem told_up {server : Cleanup.State} {p : ℕ} (h : (server.clients p).aborted = false)
    (t : SendThread.State) : told server p t = t := by
  rw [told, if_neg (by simp [h])]

theorem visit_server {α : Type} (s : Publish.State α) : (Publish.visit s).server = s.server := by
  rw [Publish.visit]
  split <;> rfl

theorem visit_added {α : Type} {s : Publish.State α} {event : α} {p : ℕ} (hCall : s.call = some event)
    (hHead : s.unvisited.head? = some p) (hUp : (s.server.clients p).aborted = false) :
    (Publish.visit s).added p = s.added p ++ [event] := by
  obtain ⟨unvisited, hUnvisited⟩ := List.head?_eq_some_iff.mp hHead
  simp only [Publish.visit, hCall, hUnvisited, hUp, Bool.false_eq_true, if_false]
  exact Function.update_self _ _ _

theorem visit_added_of_ne {α : Type} {s : Publish.State α} {p : ℕ}
    (h : s.call = none ∨ s.unvisited.head? ≠ some p) : (Publish.visit s).added p = s.added p := by
  rw [Publish.visit]
  split
  · rename_i event q unvisited hCall hUnvisited
    have hNot : p ≠ q := by
      rintro rfl
      rcases h with hNone | hHead
      · rw [hNone] at hCall
        cases hCall
      · exact hHead (by rw [hUnvisited]; rfl)
    dsimp only
    split
    · rfl
    · rw [Function.update_of_ne hNot]
  · rfl
  · rfl

/-- A step that leaves the thread of a context, and what it has been given, as they are. -/
theorem Inv.of_same {p : ℕ} {s s' : State} (h : Inv p s) (hCalls : Publish.Inv s'.calls)
    (hUp : (s'.calls.server.clients p).aborted = false) (hThread : s'.threads p = s.threads p)
    (hAdded : s'.calls.added p = s.calls.added p) (hEntered : s'.entered p = s.entered p)
    (hBefore : s'.before p = s.before p) (hTook : s'.took p = s.took p) : Inv p s' where
  calls := hCalls
  up := hUp
  before := by
    rw [hAdded, hBefore]
    exact h.before
  fresh := by
    rw [hThread, hTook]
    exact h.fresh
  follows := by
    rw [hThread, hAdded, hEntered, hBefore, hTook]
    exact h.follows

theorem Inv.server {p : ℕ} {s : State} (h : Inv p s) {a : Cleanup.Action}
    (hOther : ∀ thread, a ≠ .set p thread) : Inv p (step s (.server a)) := by
  have hUp : ((Publish.step s.calls (.server a)).server.clients p).aborted = false := by
    rw [Publish.step]
    split
    · exact h.up
    · exact aborted_step h.up hOther
  refine h.of_same (h.calls.step (.server a)) hUp ?_ ?_ rfl rfl rfl
  · change (s.threads p).map (told _ p) = s.threads p
    cases s.threads p with
    | none => rfl
    | some t => exact congrArg some (told_up hUp t)
  · change (Publish.step s.calls (.server a)).added p = s.calls.added p
    rw [Publish.step]
    split <;> rfl

theorem Inv.publish {p : ℕ} {s : State} (h : Inv p s) (event : Published) :
    Inv p (step s (.publish event)) := by
  have hSame : (Publish.step s.calls (.publish event)).server = s.calls.server ∧
      (Publish.step s.calls (.publish event)).added = s.calls.added := by
    rw [Publish.step]
    split <;> exact ⟨rfl, rfl⟩
  refine h.of_same (h.calls.step (.publish event)) ?_ rfl ?_ rfl rfl rfl
  · change ((Publish.step s.calls (.publish event)).server.clients p).aborted = false
    rw [hSame.1]
    exact h.up
  · exact congrFun hSame.2 p

theorem Inv.add {p q : ℕ} {s : State} (h : Inv p s) {t : SendThread.State} {event : Published}
    (hCall : s.calls.call = some event) (hHead : s.calls.unvisited.head? = some q)
    (hThread : s.threads q = some t) (hUp : (s.calls.server.clients q).aborted = false)
    (hFree : t.raising = false) : Inv p (s.add q t event) := by
  have hCalls : Publish.Inv (Publish.visit s.calls) := h.calls.step .visit
  have hServer : ((Publish.visit s.calls).server.clients p).aborted = false := by
    rw [visit_server]
    exact h.up
  by_cases hHere : p = q
  · subst hHere
    have hAdded : (s.add p t event).calls.added p = s.calls.added p ++ [event] :=
      visit_added hCall hHead hUp
    have hTook : (s.add p t event).took p = s.took p + accepted barsIn t (.publish event) :=
      Function.update_self _ _ _
    have hNow : (s.add p t event).threads p = some (SendThread.step t (.publish event)) :=
      Function.update_self _ _ _
    constructor
    case calls => exact hCalls
    case up => exact hServer
    case before =>
      rw [hAdded, List.length_append]
      exact h.before.trans (Nat.le_add_right _ _)
    case fresh => exact fun hNone => absurd (hNow.symm.trans hNone) (by simp)
    case follows =>
      intro t' hThread'
      obtain rfl : SendThread.step t (.publish event) = t' := Option.some.inj (hNow.symm.trans hThread')
      have hGiven := (h.follows t hThread).publish hFree event
      rw [hAdded, hTook]
      change Follows _ _ (List.drop (s.before p) _) _
      rwa [List.drop_append_of_le_length h.before]
  · have hOther : s.calls.unvisited.head? ≠ some p := by
      rw [hHead]
      exact fun hEq => hHere (Option.some.inj hEq).symm
    exact h.of_same hCalls hServer (Function.update_of_ne hHere _ _) (visit_added_of_ne (.inr hOther))
      rfl rfl (Function.update_of_ne hHere _ _)

theorem Inv.visit {p : ℕ} {s : State} (h : Inv p s) (hFree : s.waits = false) : Inv p s.visit := by
  have hCalls : Publish.Inv (Publish.visit s.calls) := h.calls.step .visit
  have hServer : ((Publish.visit s.calls).server.clients p).aborted = false := by
    rw [visit_server]
    exact h.up
  rw [State.waits, Bool.or_eq_false_iff] at hFree
  rw [State.visit]
  split
  · rename_i event q hCall hHead
    split
    · rename_i t hThread hUp
      have hLock : s.holds q = false := by simpa [hHead] using hFree.2
      exact h.add hCall hHead hThread hUp (by simpa [State.holds, hThread] using hLock)
    · rename_i hNobody
      by_cases hHere : p = q
      · subst hHere
        have hNone : s.threads p = none := by
          cases hThread : s.threads p with
          | none => rfl
          | some t => exact absurd h.up (hNobody t hThread)
        constructor
        case calls => exact hCalls
        case up => exact hServer
        case before =>
          change s.before p ≤ ((Publish.visit s.calls).added p).length
          rw [visit_added hCall hHead h.up, List.length_append]
          exact h.before.trans (Nat.le_add_right _ _)
        case fresh => exact h.fresh
        case follows => exact fun t hThread => absurd (hNone.symm.trans hThread) (by simp)
      · have hOther : s.calls.unvisited.head? ≠ some p := by
          rw [hHead]
          exact fun hEq => hHere (Option.some.inj hEq).symm
        exact h.of_same hCalls hServer rfl (visit_added_of_ne (.inr hOther)) rfl rfl rfl
  · rename_i hNobody
    have hNone : s.calls.call = none ∨ s.calls.unvisited.head? ≠ some p := by
      cases hCall : s.calls.call with
      | none => exact .inl rfl
      | some event => exact .inr fun hHead => hNobody event p hCall hHead
    exact h.of_same hCalls hServer rfl (visit_added_of_ne hNone) rfl rfl rfl

theorem Inv.enter {p q : ℕ} {s : State} (h : Inv p s) (hNew : s.threads q = none) (ctx : Context)
    (signaled raising : Bool) : Inv p (s.enter q ctx signaled raising) := by
  by_cases hHere : p = q
  · subst hHere
    have hNow : (s.enter p ctx signaled raising).threads p = some (start ctx signaled raising) := by
      rw [← told_up h.up (start ctx signaled raising)]
      exact Function.update_self _ _ _
    have hEntered : (s.enter p ctx signaled raising).entered p = ctx := Function.update_self _ _ _
    have hBefore : (s.enter p ctx signaled raising).before p = (s.calls.added p).length :=
      Function.update_self _ _ _
    constructor
    case calls => exact h.calls
    case up => exact h.up
    case before => exact hBefore.le
    case fresh => exact fun hNone => absurd (hNow.symm.trans hNone) (by simp)
    case follows =>
      intro t hThread
      obtain rfl : start ctx signaled raising = t := Option.some.inj (hNow.symm.trans hThread)
      change Follows _ (s.took p) (List.drop _ (s.calls.added p)) _
      rw [hEntered, hBefore, h.fresh hNew, List.drop_length]
      exact .enter ctx signaled raising
  · exact h.of_same h.calls h.up (Function.update_of_ne hHere _ _) rfl
      (Function.update_of_ne hHere _ _) (Function.update_of_ne hHere _ _) rfl

theorem Inv.turn {p q : ℕ} {s : State} (h : Inv p s) {a : SendThread.Action}
    (hFine : q = p → Fine a) : Inv p (s.turn q a) := by
  unfold State.turn
  split
  · exact h
  · rename_i t hThread hOwn
    by_cases hHere : p = q
    · subst hHere
      constructor
      case calls => exact h.calls
      case up => exact h.up
      case before => exact h.before
      case fresh =>
        dsimp only
        rw [Function.update_self]
        exact fun hNone => absurd hNone (by simp)
      case follows =>
        dsimp only
        intro t' hThread'
        rw [Function.update_self] at hThread'
        obtain rfl := Option.some.inj hThread'
        exact (h.follows t hThread).thread (hFine rfl) fun event => hOwn event
    · exact h.of_same h.calls h.up (Function.update_of_ne hHere _ _) rfl rfl rfl rfl
  · exact h

theorem Inv.step {p : ℕ} {s : State} (h : Inv p s) {a : Action} (hFine : FineFor p a) :
    Inv p (step s a) := by
  cases a with
  | server a =>
    apply h.server
    rintro thread rfl
    exact hFine rfl
  | publish event => exact h.publish event
  | visit =>
    rw [Broadcast.step]
    split
    · exact h
    · rename_i hFree
      exact h.visit (by simpa using hFree)
  | enter q ctx signaled raising =>
    rw [Broadcast.step]
    split
    · rename_i hNew
      rw [Bool.and_eq_true, Option.isNone_iff_eq_none] at hNew
      exact h.enter hNew.1 ctx signaled raising
    · exact h
  | thread q a => exact h.turn hFine

theorem inv_run (p : ℕ) {actions : List Action} (hFine : ∀ a ∈ actions, FineFor p a) :
    Inv p (run step {} actions) :=
  run_invariant_of_mem (Inv p) (inv_init p) fun _ h a ha => h.step (hFine a ha)

/-! ### What is on the sockets -/

theorem Follows.sent {ctx : Context} {took : Multiset BarData} {events : List Published}
    {t : SendThread.State} (h : Follows ctx took events t) (hBlocked : t.event.waiter = .blocked true)
    (hFree : t.raising = false) :
    sentOf barsOf t.sender.stream = ctx.allBars + took ∧
      sentOf ordersOf t.sender.stream = ctx.allOrders + ordersAmong events := by
  obtain ⟨signaled, raising, actions, hFine, rfl, hTook, hEvents⟩ := h
  obtain ⟨hLoop, hBars, hOrders⟩ := asleep_holds_nothing hFine hBlocked hFree
  rw [barAccount.sent_eq allBars_add hFine hLoop hBars, hTook,
    orderAccount.sent_eq allOrders_add hFine hLoop hOrders, hEvents]
  exact ⟨rfl, rfl⟩

/-- The events that have been published since the thread of a context entered its loop. -/
def State.since (s : State) (p : ℕ) : List Published := (s.calls.offered p).drop (s.before p)

theorem Inv.sent {p : ℕ} {s : State} (h : Inv p s) {t : SendThread.State}
    (hThread : s.threads p = some t) (hAsleep : Asleep t) (hVisited : p ∉ s.calls.unvisited) :
    sentOf ordersOf t.sender.stream = (s.entered p).allOrders + ordersAmong (s.since p) ∧
      sentOf barsOf t.sender.stream = (s.entered p).allBars + s.took p := by
  have hAdded := h.calls.live p h.up
  rw [Publish.owed, if_neg hVisited, List.append_nil] at hAdded
  obtain ⟨hBars, hOrders⟩ := (h.follows t hThread).sent hAsleep.1 hAsleep.2
  rw [hAdded] at hOrders
  exact ⟨hOrders, hBars⟩

/-- However the loops, the clients and the threads interleave: while the thread of a context that
stays up sleeps, nobody has still to signal it, and no loop has still to come to it, its socket
has the order events that were pending when the thread entered its loop and all that have been
published since, each of them once; and of the bars those that were pending and those taken. -/
theorem published_is_sent (actions : List Action) (p : ℕ) (hFine : ∀ a ∈ actions, FineFor p a)
    (t : SendThread.State) :
    let s := run step {} actions
    s.threads p = some t → t.event.waiter = .blocked true → t.raising = false →
      p ∉ s.calls.unvisited →
        sentOf ordersOf t.sender.stream = (s.entered p).allOrders + ordersAmong (s.since p) ∧
          sentOf barsOf t.sender.stream = (s.entered p).allBars + s.took p := by
  intro s hThread hBlocked hFree hVisited
  exact (inv_run p hFine).sent hThread ⟨hBlocked, hFree⟩ hVisited

def openedBuy : OrderInfo where
  order := { type := .buyOrder, id := 1, symbol := .eurusd, volume := 1, orderPrice := 1 }
  action := .opened

/-- A client comes, its thread enters its loop with nothing, and an order event is published. -/
def oneEvent : List Action :=
  [.server .accept, .enter 0 {} false false, .publish (.order openedBuy), .visit]

def oneEventSent : List Action :=
  oneEvent ++ [.thread 0 .raise, .visit] ++ List.replicate 20 (.thread 0 (.send true))

theorem fine_oneEvent : ∀ a ∈ oneEventSent, FineFor 0 a := by
  simp [oneEventSent, oneEvent, List.replicate, FineFor, Fine]

theorem one_event_is_sent :
    ∃ t, (run step {} oneEventSent).threads 0 = some t ∧ sentOf ordersOf t.sender.stream =
      ((run step {} oneEventSent).entered 0).allOrders +
        ordersAmong ((run step {} oneEventSent).since 0) := by
  have hEnd : ((run step {} oneEventSent).threads 0).map (fun t => (t.event.waiter, t.raising)) =
      some (.blocked true, false) := by decide +kernel
  have hVisited : 0 ∉ (run step {} oneEventSent).calls.unvisited := by decide +kernel
  obtain ⟨t, hThread, hAsleep⟩ := Option.map_eq_some_iff.mp hEnd
  obtain ⟨hBlocked, hFree⟩ := Prod.mk.inj hAsleep
  exact ⟨t, hThread,
    (published_is_sent oneEventSent 0 fine_oneEvent t hThread hBlocked hFree hVisited).1⟩

/-! ### Progress -/

/-- The loops go on, whoever has added data signals, and the thread of the context takes its turns. -/
def Serving (p : ℕ) : Action → Prop
  | .visit => True
  | .thread _ .raise => True
  | .thread q .wake => q = p
  | .thread q (.send success) => q = p ∧ success = true
  | _ => False

theorem Serving.fine {p : ℕ} {a : Action} (h : Serving p a) : FineFor p a := by
  cases a with
  | visit => trivial
  | thread q a =>
    cases a with
    | raise => exact fun _ => trivial
    | wake => exact fun _ => trivial
    | send success => exact fun _ => h.2
    | publish event => exact absurd h id
    | timeOut => exact absurd h id
    | cancel => exact absurd h id
    | ring => exact absurd h id
    | abort => exact absurd h id
  | server a => exact absurd h id
  | publish event => exact absurd h id
  | enter q ctx signaled raising => exact absurd h id

/-- What is the same of a context in two states, but for what its thread has done. -/
structure Same (p : ℕ) (s s' : State) : Prop where
  offered : s'.calls.offered = s.calls.offered
  entered : s'.entered p = s.entered p
  before : s'.before p = s.before p
  threads : ∀ q, (s'.threads q).isSome = (s.threads q).isSome

theorem Same.refl (p : ℕ) (s : State) : Same p s s := ⟨rfl, rfl, rfl, fun _ => rfl⟩

theorem Same.trans {p : ℕ} {s s' s'' : State} (h : Same p s s') (h' : Same p s' s'') :
    Same p s s'' where
  offered := h'.offered.trans h.offered
  entered := h'.entered.trans h.entered
  before := h'.before.trans h.before
  threads q := (h'.threads q).trans (h.threads q)

theorem isSome_update {threads : ℕ → Option SendThread.State} {q : ℕ} {t : SendThread.State}
    (h : threads q = some t) (t' : SendThread.State) (r : ℕ) :
    (Function.update threads q (some t') r).isSome = (threads r).isSome := by
  by_cases hHere : r = q
  · subst hHere
    rw [Function.update_self, h]
    rfl
  · rw [Function.update_of_ne hHere]

theorem same_turn (p q : ℕ) (s : State) (a : SendThread.Action) : Same p s (s.turn q a) := by
  unfold State.turn
  split
  · exact .refl p s
  · rename_i hThread _
    exact ⟨rfl, rfl, rfl, isSome_update hThread _⟩
  · exact .refl p s

theorem visit_calls (s : State) : s.visit.calls = Publish.visit s.calls := by
  rw [State.visit]
  split
  · split <;> rfl
  · rfl

theorem same_visit (p : ℕ) (s : State) : Same p s s.visit := by
  have hOffered : (Publish.visit s.calls).offered = s.calls.offered := by
    rw [Publish.visit]
    split <;> rfl
  rw [State.visit]
  split
  · rename_i event q _ _
    split
    · rename_i hThread _
      exact ⟨hOffered, rfl, rfl, isSome_update hThread _⟩
    · exact ⟨hOffered, rfl, rfl, fun _ => rfl⟩
  · exact ⟨hOffered, rfl, rfl, fun _ => rfl⟩

theorem holds_raise (s : State) (q r : ℕ) :
    (s.turn q .raise).holds r = if r = q then false else s.holds r := by
  unfold State.turn
  split
  · rename_i hRaise
    cases hRaise
  · rename_i t hThread _
    by_cases hHere : r = q
    · subst hHere
      rw [if_pos rfl, State.holds]
      dsimp only
      rw [Function.update_self, Option.any_some, SendThread.step]
      split
      · rfl
      · rename_i hFree
        simpa using hFree
    · rw [if_neg hHere, State.holds, State.holds]
      dsimp only
      rw [Function.update_of_ne hHere]
  · rename_i hNone
    split
    · rename_i hHere
      rw [State.holds, hHere, hNone]
      rfl
    · rfl

theorem turn_calls (s : State) (q : ℕ) (a : SendThread.Action) :
    (s.turn q a).calls = s.calls ∧ (s.turn q a).adding = s.adding := by
  unfold State.turn
  split <;> exact ⟨rfl, rfl⟩

theorem any_holds_raise (s : State) (q : ℕ) (context : Option ℕ) :
    context.any (s.turn q .raise).holds = (context.any s.holds && context != some q) := by
  cases context with
  | none => rfl
  | some r =>
    rw [Option.any_some, Option.any_some, holds_raise]
    by_cases hHere : r = q
    · simp [hHere]
    · simp [hHere]

/-- The turns that the loop of a call still needs, with those for the signals it may wait for. -/
def State.left (s : State) : ℕ :=
  3 * s.calls.unvisited.length + (s.adding.any s.holds).toNat +
    (s.calls.unvisited.head?.any s.holds).toNat

theorem left_raise {s : State} {q : ℕ} (h : s.adding.any s.holds = true ∧ s.adding = some q ∨
    s.calls.unvisited.head?.any s.holds = true ∧ s.calls.unvisited.head? = some q) :
    (s.turn q .raise).left < s.left := by
  obtain ⟨hCalls, hAdding⟩ := turn_calls s q .raise
  have hLess : ∀ b c : Bool, (b && c).toNat ≤ b.toNat := by decide
  have hFreed : (true && some q != some q).toNat = 0 := by simp
  rw [State.left, State.left, hCalls, hAdding, any_holds_raise, any_holds_raise]
  rcases h with ⟨hHolds, hContext⟩ | ⟨hHolds, hContext⟩
  · have hHead := hLess (s.calls.unvisited.head?.any s.holds) (s.calls.unvisited.head? != some q)
    rw [hHolds, hContext, hFreed, Bool.toNat_true]
    omega
  · have hLast := hLess (s.adding.any s.holds) (s.adding != some q)
    rw [hHolds, hContext, hFreed, Bool.toNat_true]
    omega

theorem left_visit {s : State} {q : ℕ} {unvisited : List ℕ} (h : Publish.Inv s.calls)
    (hUnvisited : s.calls.unvisited = q :: unvisited) : s.visit.left < s.left := by
  have hCall : s.calls.call ≠ none := by
    intro hNone
    rw [h.busy hNone] at hUnvisited
    cases hUnvisited
  obtain ⟨event, hEvent⟩ := Option.ne_none_iff_exists'.mp hCall
  have hLeft : (Publish.visit s.calls).unvisited = unvisited := by
    simp only [Publish.visit, hEvent, hUnvisited]
  have hBool : ∀ b : Bool, b.toNat ≤ 1 := Bool.toNat_le
  have hAdding := hBool (s.visit.adding.any s.visit.holds)
  have hHead := hBool (unvisited.head?.any s.visit.holds)
  rw [State.left, visit_calls, hLeft, State.left, hUnvisited, List.length_cons]
  omega

theorem loops_end {p : ℕ} {s : State} (h : Publish.Inv s.calls) :
    Reaches step (Serving p) s fun t => t.calls.unvisited = [] ∧ Same p s t := by
  refine Reaches.of_measure (fun t => Publish.Inv t.calls ∧ Same p s t) State.left ?_ ⟨h, .refl p s⟩
  rintro t ⟨hCalls, hSame⟩
  cases hUnvisited : t.calls.unvisited with
  | nil => exact .inl ⟨rfl, hSame⟩
  | cons q unvisited =>
    right
    have hRaise : ∀ r, (t.turn r .raise).left < t.left → ∃ a, Serving p a ∧
        (Publish.Inv (step t a).calls ∧ Same p s (step t a)) ∧ (step t a).left < t.left := by
      intro r hLess
      refine ⟨.thread r .raise, trivial, ⟨?_, hSame.trans (same_turn p r t .raise)⟩, hLess⟩
      change Publish.Inv (t.turn r .raise).calls
      rw [(turn_calls t r .raise).1]
      exact hCalls
    cases hAdding : t.adding.any t.holds with
    | true =>
      obtain ⟨r, hr, _⟩ := (Option.any_eq_true _ _).mp hAdding
      exact hRaise r (left_raise (.inl ⟨hAdding, hr⟩))
    | false =>
      cases hHead : t.calls.unvisited.head?.any t.holds with
      | true => exact hRaise q (left_raise (.inr ⟨hHead, by rw [hUnvisited]; rfl⟩))
      | false =>
        have hFree : t.waits = false := by rw [State.waits, hAdding, hHead, Bool.or_self]
        have hStep : step t .visit = t.visit := by
          rw [step, hFree]
          rfl
        refine ⟨.visit, trivial, ?_, ?_⟩
        · rw [hStep, visit_calls]
          exact ⟨hCalls.step .visit, hSame.trans (same_visit p t)⟩
        · rw [hStep]
          exact left_visit hCalls hUnvisited

theorem turn_own {s : State} {p : ℕ} {t : SendThread.State} (h : s.threads p = some t)
    {a : SendThread.Action} (hOwn : ∀ event, a ≠ .publish event) :
    (s.turn p a).threads p = some (SendThread.step t a) := by
  unfold State.turn
  split
  · exact absurd rfl (hOwn _)
  · rename_i t' hThread _
    rw [h, Option.some.injEq] at hThread
    subst hThread
    exact Function.update_self _ _ _
  · rename_i hNone
    rw [h] at hNone
    cases hNone

theorem run_turns {s : State} {p : ℕ} {t : SendThread.State} (h : s.threads p = some t)
    {actions : List SendThread.Action} (hOwn : ∀ a ∈ actions, ∀ event, a ≠ .publish event) :
    (run step s (actions.map (.thread p))).threads p = some (run SendThread.step t actions) ∧
      (run step s (actions.map (.thread p))).calls = s.calls ∧
      Same p s (run step s (actions.map (.thread p))) := by
  induction actions generalizing s t with
  | nil => exact ⟨h, rfl, .refl p s⟩
  | cons a actions ih =>
    have hNow := turn_own h (hOwn a List.mem_cons_self)
    obtain ⟨hThread, hCalls, hSame⟩ := ih hNow fun b hb => hOwn b (List.mem_cons_of_mem _ hb)
    exact ⟨hThread, hCalls.trans (turn_calls s p a).1, (same_turn p p s a).trans hSame⟩

/-- The loops come to their end, and who has added data to the context signals. -/
theorem reaches_free {p : ℕ} {s : State} (h : Publish.Inv s.calls) :
    Reaches step (Serving p) s fun t =>
      t.calls.unvisited = [] ∧ Same p s t ∧ t.holds p = false := by
  refine (loops_end h).trans ?_
  rintro t ⟨hUnvisited, hSame⟩
  refine .turn (i := .thread p .raise) trivial (.here ⟨?_, ?_, ?_⟩)
  · change (t.turn p .raise).calls.unvisited = []
    rw [(turn_calls t p .raise).1, hUnvisited]
  · exact hSame.trans (same_turn p p t .raise)
  · change (t.turn p .raise).holds p = false
    rw [holds_raise, if_pos rfl]

/-- The thread of a context takes its turns until it sleeps. -/
theorem reaches_asleep {p : ℕ} {s : State} (h : Inv p s) {t : SendThread.State}
    (hThread : s.threads p = some t) (hFree : t.raising = false) :
    Reaches step (Serving p) s fun s' =>
      s'.calls = s.calls ∧ Same p s s' ∧ ∃ t', s'.threads p = some t' ∧ Asleep t' := by
  obtain ⟨signaled, raising, actions, hFine, hRun, _⟩ := h.follows t hThread
  rw [hRun] at hFree
  obtain ⟨n, hAsleep⟩ := exists_asleep (s.entered p) signaled raising hFine hFree
  rw [run_append, ← hRun] at hAsleep
  have hOwn : ∀ a ∈ SendThread.Action.wake :: turns n, ∀ event, a ≠ .publish event := by
    intro a ha event
    rcases List.mem_cons.mp ha with rfl | hTurn
    · simp
    · rw [List.eq_of_mem_replicate hTurn]
      simp
  obtain ⟨hThread', hCalls, hSame⟩ := run_turns hThread hOwn
  refine ⟨_, ?_, hCalls, hSame, _, hThread', hAsleep⟩
  intro a ha
  obtain ⟨b, hb, rfl⟩ := List.mem_map.mp ha
  rcases List.mem_cons.mp hb with rfl | hTurn
  · rfl
  · rw [List.eq_of_mem_replicate hTurn]
    exact ⟨rfl, rfl⟩

/-- However a run has gone on, a context that stays up and whose thread has entered its loop gets all:
the loops and the thread have only to go on, and the thread sleeps with the order events on the
socket that were pending when it entered its loop and all that have been published since, each of
them once, and with the bars that were pending and those taken. -/
theorem published_gets_sent (actions : List Action) (p : ℕ) (hFine : ∀ a ∈ actions, FineFor p a)
    (hEntered : ((run step {} actions).threads p).isSome = true) :
    let s := run step {} actions
    ∃ later, (∀ a ∈ later, Serving p a) ∧
      let s' := run step s later
      ∃ t, s'.threads p = some t ∧ t.event.waiter = .blocked true ∧
        sentOf ordersOf t.sender.stream = (s.entered p).allOrders + ordersAmong (s.since p) ∧
          sentOf barsOf t.sender.stream = (s.entered p).allBars + s'.took p := by
  intro s
  have h : Inv p s := inv_run p hFine
  have hKeep : ∀ s a, Inv p s → Serving p a → Inv p (step s a) := fun _ _ hInv ha => hInv.step ha.fine
  have hLoops := (reaches_free (p := p) h.calls).keeps (Inv p) hKeep h
  change Reaches step (Serving p) s fun s' => ∃ t, s'.threads p = some t ∧
    t.event.waiter = .blocked true ∧
      sentOf ordersOf t.sender.stream = (s.entered p).allOrders + ordersAmong (s.since p) ∧
        sentOf barsOf t.sender.stream = (s.entered p).allBars + s'.took p
  refine hLoops.trans ?_
  rintro u ⟨hInv, hUnvisited, hSame, hFree⟩
  obtain ⟨t, hThread⟩ := Option.isSome_iff_exists.mp ((hSame.threads p).trans hEntered)
  have hRaised : t.raising = false := by simpa [State.holds, hThread] using hFree
  obtain ⟨later, hLater, hInv', hCalls, hSame', t', hThread', hAsleep⟩ :=
    (reaches_asleep hInv hThread hRaised).keeps (Inv p) hKeep hInv
  have hVisited : p ∉ (run step u later).calls.unvisited := by
    rw [hCalls, hUnvisited]
    exact List.not_mem_nil
  have hSince : (run step u later).since p = s.since p := by
    rw [State.since, hSame'.offered, hSame'.before, hSame.offered, hSame.before]
    rfl
  have hSent := hInv'.sent hThread' hAsleep hVisited
  rw [hSince, hSame'.entered, hSame.entered] at hSent
  exact ⟨later, hLater, t', hThread', hAsleep.1, hSent⟩

theorem one_event_gets_sent :
    let s := run step {} oneEvent
    ∃ later, (∀ a ∈ later, Serving 0 a) ∧
      let s' := run step s later
      ∃ t, s'.threads 0 = some t ∧ t.event.waiter = .blocked true ∧
        sentOf ordersOf t.sender.stream = (s.entered 0).allOrders + ordersAmong (s.since 0) ∧
          sentOf barsOf t.sender.stream = (s.entered 0).allBars + s'.took 0 :=
  published_gets_sent oneEvent 0 (by simp [oneEvent, FineFor]) (by decide +kernel)

end Fxquant.Gui.Broadcast
