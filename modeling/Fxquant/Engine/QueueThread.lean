import Fxquant.Common.Event
import Fxquant.Engine.Shutdown
import Fxquant.Library.Wakeups

/-!
# The thread of an event queue

`event_queue.cpp` with one thread: a push and its signal under `lock_`, the loop of `thread_func`
with its wait, and the destructor. Whoever holds `lock_` between a push and its signal keeps
the others out of the queue, but not the thread out of its wait.
-/

namespace Fxquant.QueueThread

open Runs Shutdown Wakeups

variable {ε : Type}

inductive Pc (ε : Type) where
  | loop
  | pop
  | executing (event : ε)
  | waiting
  | ended

/-- `raising` is a push that has still to signal. -/
structure State (ε : Type) where
  q : EventQueue ε := {}
  signal : Event.State := {}
  raising : Bool := false
  pc : Pc ε := .loop
  accepted : List ε := []
  executed : List ε := []

inductive Action (ε : Type) where
  | push (event : ε)
  | raise
  | thread
  | wake
  | timeOut
  | shutDown
  | ring

namespace State

variable (s : State ε)

def executing : List ε :=
  match s.pc with
  | .executing event => [event]
  | _ => []

/-- A wait that returns takes the thread back to the head of its loop. -/
def waited (r : Event.State × Option Bool) : State ε :=
  { s with signal := r.1, pc := if r.2.isSome then .loop else s.pc }

def threadFunc : State ε :=
  match s.pc with
  | .loop =>
    if s.q.shutdown then { s with q := { s.q with terminated := true }, pc := .ended }
    else { s with pc := .pop }
  | .pop =>
    if s.raising then s
    else
      match s.q.popEvent with
      | (q, some event) => { s with q, pc := .executing event }
      | (q, none) => { s with q, pc := .waiting }
  | .executing event => { s with executed := s.executed ++ [event], pc := .loop }
  | .waiting => s.waited (s.signal.wait true)
  | .ended => s

end State

/-- The destructor signals again and again, after it has set `shutdown_` under `lock_`. -/
def step (s : State ε) : Action ε → State ε
  | .push event =>
    if s.raising || s.q.shutdown then s
    else { s with q := s.q.pushEvent event, raising := true, accepted := s.accepted ++ [event] }
  | .raise => if s.raising then { s with signal := s.signal.signal, raising := false } else s
  | .thread => s.threadFunc
  | .wake => s.waited s.signal.wake
  | .timeOut => s.waited s.signal.timeOut
  | .shutDown => if s.raising then s else { s with q := { s.q with shutdown := true } }
  | .ring => if s.q.shutdown then { s with signal := s.signal.signal } else s

/-! ### The invariant -/

def bell : Bell (State ε) where
  work s := s.q.queue ≠ [] ∧ s.q.shutdown = false
  raising s := s.raising = true
  flag s := s.signal.signaled = true
  looked s := s.pc = .waiting

/-- Every event accepted has been executed, is being executed or is in the queue, in this order;
the thread blocks nowhere but in its wait. -/
structure Inv (s : State ε) : Prop where
  fifo : s.accepted = s.executed ++ s.executing ++ s.q.queue
  rests : s.signal.Rests true
  waiting : s.signal.waiter ≠ .idle → s.pc = .waiting
  accepting : s.raising = true → s.q.shutdown = false
  announced : bell.Announced s
  ended : s.pc = .ended → s.q.terminated = true

theorem inv_init : Inv ({} : State ε) where
  fifo := rfl
  rests := .inl rfl
  waiting h := absurd rfl h
  accepting h := by cases h
  announced h := by cases h
  ended h := by cases h

theorem Inv.waited {s : State ε} (h : Inv s) (hPc : s.pc = .waiting ∨ s.signal.waiter ≠ .idle)
    {r : Event.State × Option Bool} (hTurn : Event.Turn true s.signal r) : Inv (s.waited r) := by
  have hWaiting : s.pc = .waiting := hPc.elim id h.waiting
  have hNothing : s.executing = [] := by rw [State.executing, hWaiting]
  cases hReturned : r.2.isSome with
  | true =>
    have hState : s.waited r = { s with signal := r.1, pc := .loop } := by
      rw [State.waited, hReturned, if_pos rfl]
    rw [hState]
    exact {
      fifo := by rw [h.fifo, hNothing]; rfl
      rests := hTurn.rests
      waiting := fun hBusy => absurd (hTurn.idle hReturned) hBusy
      accepting := h.accepting
      announced := fun hLooked => absurd hLooked (by simp [bell])
      ended := by simp }
  | false =>
    have hState : s.waited r = { s with signal := r.1 } := by
      rw [State.waited, hReturned]
      rfl
    rw [hState]
    exact {
      fifo := h.fifo
      rests := hTurn.rests
      waiting := fun _ => hWaiting
      accepting := h.accepting
      announced := h.announced.move
        (.keep id id (fun hSet => (hTurn.kept hReturned).trans hSet) id)
      ended := h.ended }

theorem Inv.push {s : State ε} (h : Inv s) (event : ε) : Inv (step s (.push event)) := by
  rw [step]
  split
  · exact h
  · rename_i hFree
    rw [Bool.or_eq_true, not_or] at hFree
    obtain ⟨_, hRunning⟩ := hFree
    have hRunning : s.q.shutdown = false := by simpa using hRunning
    have hQueue : s.q.pushEvent event = { s.q with queue := s.q.queue ++ [event] } := by
      rw [EventQueue.pushEvent, if_neg (by simp [hRunning])]
    rw [hQueue]
    constructor
    · change s.accepted ++ [event] = s.executed ++ s.executing ++ (s.q.queue ++ [event])
      rw [h.fifo, ← List.append_assoc]
    · exact h.rests
    · exact h.waiting
    · exact fun _ => hRunning
    · exact h.announced.move (.add rfl)
    · exact h.ended

theorem Inv.signal {s : State ε} (h : Inv s) (raising : Bool)
    (hRaising : raising = true → s.raising = true) :
    Inv { s with signal := s.signal.signal, raising := raising } where
  fifo := h.fifo
  rests := h.rests.signal
  waiting hBusy := by
    apply h.waiting
    intro hIdle
    exact hBusy (by rw [Event.State.signal, hIdle])
  accepting hHolds := h.accepting (hRaising hHolds)
  announced := h.announced.move (.raise rfl)
  ended := h.ended

/-- A thread that is not in its wait has nothing blocked. -/
theorem Inv.rests_of_awake {s : State ε} (h : Inv s) (hPc : s.pc ≠ .waiting) :
    s.signal.waiter = .idle := by
  by_contra hBusy
  exact hPc (h.waiting hBusy)

theorem Inv.awake {s s' : State ε} (h : Inv s) (hPc : s.pc ≠ .waiting) (hPc' : s'.pc ≠ .waiting)
    (hSignal : s'.signal = s.signal) (hRaising : s'.raising = s.raising)
    (hShutdown : s'.q.shutdown = s.q.shutdown)
    (hFifo : s'.accepted = s'.executed ++ s'.executing ++ s'.q.queue)
    (hEnded : s'.pc = .ended → s'.q.terminated = true) : Inv s' where
  fifo := hFifo
  rests := by
    rw [hSignal]
    exact h.rests
  waiting hBusy := by
    rw [hSignal] at hBusy
    exact absurd (h.rests_of_awake hPc) hBusy
  accepting := by
    rw [hRaising, hShutdown]
    exact h.accepting
  announced hLooked := absurd hLooked hPc'
  ended := hEnded

theorem popEvent_cases (q : EventQueue ε) :
    (q.popEvent = (q, none) ∧ ¬ (q.queue ≠ [] ∧ q.shutdown = false)) ∨
      ∃ event rest, q.queue = event :: rest ∧ q.shutdown = false ∧
        q.popEvent = ({ q with queue := rest }, some event) := by
  rw [EventQueue.popEvent]
  cases hShutdown : q.shutdown with
  | true => exact .inl ⟨rfl, fun h => Bool.noConfusion h.2⟩
  | false =>
    cases hQueue : q.queue with
    | nil => exact .inl ⟨rfl, fun h => h.1 rfl⟩
    | cons event rest => exact .inr ⟨event, rest, rfl, rfl, rfl⟩

theorem Inv.pop {s : State ε} (h : Inv s) (hPc : s.pc = .pop) : Inv s.threadFunc := by
  have hAwake : s.pc ≠ .waiting := by simp [hPc]
  have hFifo := h.fifo
  rw [State.executing, hPc] at hFifo
  cases hHeld : s.raising with
  | true =>
    have hBlocked : s.threadFunc = s := by simp [State.threadFunc, hPc, hHeld]
    rwa [hBlocked]
  | false =>
    rcases popEvent_cases s.q with ⟨hNone, hIdle⟩ | ⟨event, rest, hQueue, _, hSome⟩
    · have hState : s.threadFunc = { s with pc := .waiting } := by
        simp [State.threadFunc, hPc, hHeld, hNone]
      rw [hState]
      exact {
        fifo := hFifo
        rests := h.rests
        waiting := fun _ => rfl
        accepting := h.accepting
        announced := h.announced.move (.look hIdle)
        ended := by simp }
    · have hState : s.threadFunc =
          { s with q := { s.q with queue := rest }, pc := .executing event } := by
        simp [State.threadFunc, hPc, hHeld, hSome]
      rw [hState]
      refine h.awake hAwake (by simp) rfl rfl rfl ?_ (by simp)
      change s.accepted = s.executed ++ [event] ++ rest
      rw [hFifo, hQueue, List.append_nil, List.append_assoc]
      rfl

theorem Inv.threadFunc {s : State ε} (h : Inv s) : Inv s.threadFunc := by
  cases hPc : s.pc with
  | loop =>
    have hFifo := h.fifo
    rw [State.executing, hPc] at hFifo
    have hAwake : s.pc ≠ .waiting := by simp [hPc]
    cases hShutdown : s.q.shutdown with
    | true =>
      have hState : s.threadFunc = { s with q := { s.q with terminated := true }, pc := .ended } := by
        simp [State.threadFunc, hPc, hShutdown]
      rw [hState]
      exact h.awake hAwake (by simp) rfl rfl rfl hFifo fun _ => rfl
    | false =>
      have hState : s.threadFunc = { s with pc := .pop } := by
        simp [State.threadFunc, hPc, hShutdown]
      rw [hState]
      exact h.awake hAwake (by simp) rfl rfl rfl hFifo (by simp)
  | pop => exact h.pop hPc
  | executing event =>
    have hFifo := h.fifo
    rw [State.executing, hPc] at hFifo
    have hState : s.threadFunc = { s with executed := s.executed ++ [event], pc := .loop } := by
      simp [State.threadFunc, hPc]
    rw [hState]
    refine h.awake (by simp [hPc]) (by simp) rfl rfl rfl ?_ (by simp)
    change s.accepted = s.executed ++ [event] ++ [] ++ s.q.queue
    rw [hFifo, List.append_nil]
  | waiting =>
    have hState : s.threadFunc = s.waited (s.signal.wait true) := by simp [State.threadFunc, hPc]
    rw [hState]
    exact h.waited (.inl hPc) h.rests.wait
  | ended =>
    have hState : s.threadFunc = s := by simp [State.threadFunc, hPc]
    rwa [hState]

/-- A step of the waiting call that finds nothing blocked changes nothing. -/
theorem waited_of_idle {s : State ε} {r : Event.State × Option Bool} (h : r = (s.signal, none)) :
    s.waited r = s := by
  rw [h]
  rfl

theorem Inv.step {s : State ε} (h : Inv s) (a : Action ε) : Inv (step s a) := by
  cases a with
  | push event => exact h.push event
  | raise =>
    rw [QueueThread.step]
    split
    · exact h.signal false (by simp)
    · exact h
  | thread => exact h.threadFunc
  | wake =>
    by_cases hIdle : s.signal.waiter = .idle
    · have hSame : s.waited s.signal.wake = s := waited_of_idle (by rw [Event.State.wake, hIdle])
      rwa [QueueThread.step, hSame]
    · exact h.waited (.inr hIdle) h.rests.wake
  | timeOut =>
    by_cases hIdle : s.signal.waiter = .idle
    · have hSame : s.waited s.signal.timeOut = s :=
        waited_of_idle (by rw [Event.State.timeOut, hIdle])
      rwa [QueueThread.step, hSame]
    · exact h.waited (.inr hIdle) h.rests.timeOut
  | shutDown =>
    rw [QueueThread.step]
    split
    · exact h
    · rename_i hFree
      exact {
        fifo := h.fifo
        rests := h.rests
        waiting := h.waiting
        accepting := fun hHeld => absurd hHeld hFree
        announced := h.announced.move (.look fun hWork => Bool.noConfusion hWork.2)
        ended := h.ended }
  | ring =>
    rw [QueueThread.step]
    split
    · exact h.signal s.raising id
    · exact h

theorem Inv.queue_nil {s : State ε} (h : Inv s) (hBlocked : s.signal.waiter = .blocked true)
    (hFree : s.raising = false) (hRunning : s.q.shutdown = false) : s.q.queue = [] := by
  by_contra hQueue
  have hWaiting := h.waiting (by simp [hBlocked])
  have hUnset := h.rests.unset hBlocked
  exact h.announced.idle hWaiting (by simp [bell, hUnset]) (by simp [bell, hFree]) ⟨hQueue, hRunning⟩

theorem Inv.executed_eq {s : State ε} (h : Inv s) (hBlocked : s.signal.waiter = .blocked true)
    (hFree : s.raising = false) (hRunning : s.q.shutdown = false) : s.executed = s.accepted := by
  have hWaiting := h.waiting (by simp [hBlocked])
  rw [h.fifo, h.queue_nil hBlocked hFree hRunning, State.executing, hWaiting]
  simp

theorem popEvent_shutdown (q : EventQueue ε) : q.popEvent.1.shutdown = q.shutdown := by
  rcases popEvent_cases q with ⟨hNone, _⟩ | ⟨event, rest, _, _, hSome⟩
  · rw [hNone]
  · rw [hSome]

/-- The thread accepts no event, and does not end as long as the queue runs. -/
theorem threadFunc_keeps (s : State ε) :
    s.threadFunc.accepted = s.accepted ∧ s.threadFunc.q.shutdown = s.q.shutdown ∧
      (s.threadFunc.pc = .ended → s.pc = .ended ∨ s.q.shutdown = true) := by
  rw [State.threadFunc]
  split
  · split
    · rename_i hShutdown
      exact ⟨rfl, rfl, fun _ => .inr hShutdown⟩
    · exact ⟨rfl, rfl, by simp⟩
  · split
    · exact ⟨rfl, rfl, .inl⟩
    · have hKept := popEvent_shutdown s.q
      split
      · rename_i hPop
        rw [hPop] at hKept
        exact ⟨rfl, hKept, by simp⟩
      · rename_i hPop
        rw [hPop] at hKept
        exact ⟨rfl, hKept, by simp⟩
  · exact ⟨rfl, rfl, by simp⟩
  · rename_i hPc
    refine ⟨rfl, rfl, ?_⟩
    rw [State.waited]
    split
    · simp
    · exact .inl
  · exact ⟨rfl, rfl, .inl⟩

/-- Only pushes are accepted, and a queue that is shut down stays so. -/
theorem step_keeps (s : State ε) {a : Action ε} (hPush : ∀ event, a ≠ .push event) :
    (step s a).accepted = s.accepted ∧ ((step s a).q.shutdown = false → s.q.shutdown = false) ∧
      ((step s a).pc = .ended → s.pc = .ended ∨ s.q.shutdown = true) := by
  have hWaited : ∀ r : Event.State × Option Bool, (s.waited r).pc = .ended → s.pc = .ended := by
    intro r
    rw [State.waited]
    split
    · simp
    · exact id
  cases a with
  | push event => exact absurd rfl (hPush event)
  | raise =>
    rw [step]
    split <;> exact ⟨rfl, id, .inl⟩
  | thread =>
    obtain ⟨hAccepted, hShutdown, hEnded⟩ := threadFunc_keeps s
    exact ⟨hAccepted, hShutdown.symm.trans, hEnded⟩
  | wake => exact ⟨rfl, id, fun h => .inl (hWaited _ h)⟩
  | timeOut => exact ⟨rfl, id, fun h => .inl (hWaited _ h)⟩
  | shutDown =>
    rw [step]
    split
    · exact ⟨rfl, id, .inl⟩
    · exact ⟨rfl, by simp, .inl⟩
  | ring =>
    rw [step]
    split <;> exact ⟨rfl, id, .inl⟩

/-! ### A queue that runs -/

/-- The thread has not ended, as the queue is not shut down. -/
structure Running (s : State ε) : Prop where
  inv : Inv s
  running : s.q.shutdown = false
  alive : s.pc ≠ .ended

/-- What the push and the thread do without the help of others. -/
inductive Serving : Action ε → Prop where
  | raise : Serving .raise
  | thread : Serving .thread
  | wake : Serving .wake

def Pc.left : Pc ε → ℕ
  | .executing _ => 3
  | .loop => 2
  | .pop => 1
  | .waiting => 0
  | .ended => 0

def waiterLeft : Event.Waiter → ℕ
  | .notified _ => 4
  | .idle => 1
  | .blocked _ => 0

def signalLeft (e : Event.State) : ℕ := (if e.signaled then 3 else 0) + waiterLeft e.waiter

/-- What they have left to do until the thread sleeps. -/
def State.work (s : State ε) : ℕ :=
  (if s.raising then 8 else 0) + 3 * s.q.queue.length + s.pc.left + signalLeft s.signal

theorem signalLeft_signal {e : Event.State} (h : e.Rests true) :
    signalLeft e.signal < 8 + signalLeft e := by
  rcases h with hIdle | rfl | rfl
  · rw [signalLeft, signalLeft, Event.State.signal, hIdle, if_pos rfl, waiterLeft]
    omega
  · decide
  · decide

theorem Running.raise {s : State ε} (h : Running s) (hHeld : s.raising = true) :
    Running (step s .raise) ∧ (step s .raise).work < s.work := by
  have hStep : step s .raise = { s with signal := s.signal.signal, raising := false } := by
    rw [step, if_pos hHeld]
  refine ⟨⟨h.inv.step .raise, ?_, ?_⟩, ?_⟩
  · rw [hStep]
    exact h.running
  · rw [hStep]
    exact h.alive
  · have hSignal := signalLeft_signal h.inv.rests
    rw [hStep, State.work, State.work, hHeld, if_pos rfl, if_neg Bool.false_ne_true]
    dsimp only
    omega

theorem Running.wake {s : State ε} (h : Running s) (hNotified : s.signal = ⟨true, .notified true⟩) :
    Running (step s .wake) ∧ (step s .wake).work < s.work := by
  have hPc := h.inv.waiting (by simp [hNotified])
  have hStep : step s .wake = { s with signal := ⟨true, .idle⟩, pc := .loop } := by
    rw [step, hNotified]
    rfl
  refine ⟨⟨h.inv.step .wake, ?_, ?_⟩, ?_⟩
  · rw [hStep]
    exact h.running
  · rw [hStep]
    simp
  · rw [hStep]
    simp only [State.work, hNotified, hPc, Pc.left, signalLeft, waiterLeft]
    omega

theorem Running.thread {s : State ε} (h : Running s) (hFree : s.raising = false)
    (hIdle : s.signal.waiter = .idle) : Running (step s .thread) ∧ (step s .thread).work < s.work := by
  have hInv := h.inv.step .thread
  have hRunning := h.running
  rw [step] at hInv ⊢
  cases hPc : s.pc with
  | loop =>
    have hState : s.threadFunc = { s with pc := .pop } := by simp [State.threadFunc, hPc, hRunning]
    rw [hState] at hInv ⊢
    refine ⟨⟨hInv, hRunning, by simp⟩, ?_⟩
    simp only [State.work, hPc, Pc.left]
    omega
  | pop =>
    rcases popEvent_cases s.q with ⟨hNone, _⟩ | ⟨event, rest, hQueue, _, hSome⟩
    · have hState : s.threadFunc = { s with pc := .waiting } := by
        simp [State.threadFunc, hPc, hFree, hNone]
      rw [hState] at hInv ⊢
      refine ⟨⟨hInv, hRunning, by simp⟩, ?_⟩
      simp only [State.work, hPc, Pc.left]
      omega
    · have hState : s.threadFunc =
          { s with q := { s.q with queue := rest }, pc := .executing event } := by
        simp [State.threadFunc, hPc, hFree, hSome]
      rw [hState] at hInv ⊢
      refine ⟨⟨hInv, hRunning, by simp⟩, ?_⟩
      simp only [State.work, hPc, hQueue, Pc.left, List.length_cons]
      omega
  | executing event =>
    have hState : s.threadFunc = { s with executed := s.executed ++ [event], pc := .loop } := by
      simp [State.threadFunc, hPc]
    rw [hState] at hInv ⊢
    refine ⟨⟨hInv, hRunning, by simp⟩, ?_⟩
    simp only [State.work, hPc, Pc.left]
    omega
  | waiting =>
    have hState : s.threadFunc = s.waited (s.signal.wait true) := by simp [State.threadFunc, hPc]
    cases hSet : s.signal.signaled with
    | true =>
      have hWait : s.signal.wait true = (⟨false, .idle⟩, some true) := by
        simp [Event.State.wait, hIdle, hSet]
      rw [hState, hWait] at hInv ⊢
      refine ⟨⟨hInv, hRunning, by simp [State.waited]⟩, ?_⟩
      simp [State.work, State.waited, hPc, hIdle, hSet, Pc.left, signalLeft, waiterLeft]
    | false =>
      have hWait : s.signal.wait true = (⟨false, .blocked true⟩, none) := by
        simp [Event.State.wait, hIdle, hSet]
      rw [hState, hWait] at hInv ⊢
      refine ⟨⟨hInv, hRunning, by simp [State.waited, hPc]⟩, ?_⟩
      simp [State.work, State.waited, hPc, hIdle, hSet, Pc.left, signalLeft, waiterLeft]
  | ended => exact absurd hPc h.alive

/-- Unless the thread sleeps and no push has still to signal, something is left to do. -/
theorem Running.turn {s : State ε} (h : Running s) :
    (s.raising = false ∧ s.signal.waiter = .blocked true) ∨
      ∃ a, Serving a ∧ Running (step s a) ∧ (step s a).work < s.work := by
  cases hHeld : s.raising with
  | true => exact .inr ⟨.raise, .raise, h.raise hHeld⟩
  | false =>
    rcases h.inv.rests with hIdle | hBlocked | hNotified
    · exact .inr ⟨.thread, .thread, h.thread hHeld hIdle⟩
    · exact .inl ⟨rfl, by rw [hBlocked]⟩
    · exact .inr ⟨.wake, .wake, h.wake hNotified⟩

/-! ### Runs -/

/-- However pushes, the thread and the destructor interleave, the events are executed in the order
in which they were accepted, each of them once; and where the thread sleeps and no push has
still to signal, no event is left in a queue that runs. -/
theorem events_served (actions : List (Action ε)) :
    let s := run step {} actions
    s.accepted = s.executed ++ s.executing ++ s.q.queue ∧
      (s.signal.waiter = .blocked true → s.raising = false → s.q.shutdown = false →
        s.q.queue = []) := by
  have h : Inv (run step {} actions) := run_invariant Inv (fun _ a h => h.step a) inv_init actions
  exact ⟨h.fifo, h.queue_nil⟩

/-! ### The shutdown -/

/-- After the shutdown nothing is accepted and nothing taken out of the queue. -/
structure Frozen (accepted queue started : List ε) (s : State ε) : Prop where
  inv : Inv s
  shutdown : s.q.shutdown = true
  accepted : s.accepted = accepted
  queue : s.q.queue = queue
  started : s.executed ++ s.executing = started

variable {accepted queue started : List ε}

theorem Frozen.free {s : State ε} (h : Frozen accepted queue started s) : s.raising = false := by
  by_contra hHeld
  have hRunning := h.inv.accepting (by simpa using hHeld)
  rw [h.shutdown] at hRunning
  cases hRunning

theorem executing_waited {s : State ε} (h : s.executing = []) (r : Event.State × Option Bool) :
    (s.waited r).executing = [] := by
  rw [State.waited]
  split
  · rfl
  · exact h

/-- The turn of a thread whose queue is shut down, at each place of its loop. -/
theorem Frozen.threadFunc_cases {s : State ε} (h : Frozen accepted queue started s) :
    (s.pc = .loop ∧
        s.threadFunc = { s with q := { s.q with terminated := true }, pc := .ended }) ∨
      (s.pc = .pop ∧ s.threadFunc = { s with pc := .waiting }) ∨
      (∃ event, s.pc = .executing event ∧
        s.threadFunc = { s with executed := s.executed ++ [event], pc := .loop }) ∨
      (s.pc = .waiting ∧ s.threadFunc = s.waited (s.signal.wait true)) ∨
      (s.pc = .ended ∧ s.threadFunc = s) := by
  have hShutdown := h.shutdown
  have hPop : s.q.popEvent = (s.q, none) := by rw [EventQueue.popEvent, if_pos hShutdown]
  cases hPc : s.pc with
  | loop => exact .inl ⟨rfl, by simp [State.threadFunc, hPc, hShutdown]⟩
  | pop => exact .inr (.inl ⟨rfl, by simp [State.threadFunc, hPc, h.free, hPop]⟩)
  | executing event => exact .inr (.inr (.inl ⟨event, rfl, by simp [State.threadFunc, hPc]⟩))
  | waiting => exact .inr (.inr (.inr (.inl ⟨rfl, by simp [State.threadFunc, hPc]⟩)))
  | ended => exact .inr (.inr (.inr (.inr ⟨rfl, by simp [State.threadFunc, hPc]⟩)))

theorem Frozen.waited {s : State ε} (h : Frozen accepted queue started s)
    (r : Event.State × Option Bool) (hInv : Inv (s.waited r))
    (hPc : s.executing = [] ∨ s.waited r = s) : Frozen accepted queue started (s.waited r) := by
  rcases hPc with hNothing | hSame
  · have hStarted := h.started
    rw [hNothing] at hStarted
    exact ⟨hInv, h.shutdown, h.accepted, h.queue, by rw [executing_waited hNothing]; exact hStarted⟩
  · rwa [hSame]

theorem Frozen.waited_of_rests {s : State ε} (h : Frozen accepted queue started s)
    (r : Event.State × Option Bool) (hInv : Inv (s.waited r))
    (hIdle : s.signal.waiter = .idle → r = (s.signal, none)) :
    Frozen accepted queue started (s.waited r) := by
  refine h.waited r hInv ?_
  by_cases hWaiter : s.signal.waiter = .idle
  · exact .inr (waited_of_idle (hIdle hWaiter))
  · left
    rw [State.executing, h.inv.waiting hWaiter]

theorem Frozen.step {s : State ε} (h : Frozen accepted queue started s) (a : Action ε) :
    Frozen accepted queue started (step s a) := by
  have hInv := h.inv.step a
  obtain ⟨_, hShutdown, hAccepted, hQueue, hStarted⟩ := id h
  cases a with
  | push event =>
    rw [QueueThread.step, if_pos (by simp [hShutdown])]
    exact h
  | raise =>
    rw [QueueThread.step, if_neg (by simp [h.free])]
    exact h
  | thread =>
    rw [QueueThread.step] at hInv ⊢
    rcases h.threadFunc_cases with
      ⟨hPc, hEq⟩ | ⟨hPc, hEq⟩ | ⟨event, hPc, hEq⟩ | ⟨hPc, hEq⟩ | ⟨hPc, hEq⟩
    · rw [State.executing, hPc] at hStarted
      rw [hEq] at hInv ⊢
      exact ⟨hInv, hShutdown, hAccepted, hQueue, hStarted⟩
    · rw [State.executing, hPc] at hStarted
      rw [hEq] at hInv ⊢
      exact ⟨hInv, hShutdown, hAccepted, hQueue, hStarted⟩
    · rw [State.executing, hPc] at hStarted
      rw [hEq] at hInv ⊢
      exact ⟨hInv, hShutdown, hAccepted, hQueue, by rw [← hStarted]; exact List.append_nil _⟩
    · rw [hEq] at hInv ⊢
      exact h.waited _ hInv (.inl (by rw [State.executing, hPc]))
    · rwa [hEq]
  | wake =>
    exact h.waited_of_rests _ hInv fun hIdle => by rw [Event.State.wake, hIdle]
  | timeOut =>
    exact h.waited_of_rests _ hInv fun hIdle => by rw [Event.State.timeOut, hIdle]
  | shutDown =>
    rw [QueueThread.step, if_neg (by simp [h.free])] at hInv ⊢
    exact ⟨hInv, rfl, hAccepted, hQueue, hStarted⟩
  | ring =>
    rw [QueueThread.step, if_pos hShutdown] at hInv ⊢
    exact ⟨hInv, hShutdown, hAccepted, hQueue, hStarted⟩

theorem Frozen.step_eq {s : State ε} (h : Frozen accepted queue started s) (a : Action ε) :
    a = .thread ∨ a = .wake ∨ a = .timeOut ∨
      QueueThread.step s a = { s with signal := s.signal.signal } ∨ QueueThread.step s a = s := by
  have hShutdown := h.shutdown
  have hFree := h.free
  cases a with
  | push event => simp [QueueThread.step, hShutdown]
  | raise => simp [QueueThread.step, hFree]
  | thread => exact .inl rfl
  | wake => exact .inr (.inl rfl)
  | timeOut => exact .inr (.inr (.inl rfl))
  | shutDown =>
    obtain ⟨⟨shutdown, _, _⟩, _, _, _, _, _⟩ := s
    obtain rfl : shutdown = true := hShutdown
    simp [QueueThread.step]
  | ring => simp [QueueThread.step, hShutdown]

/-- The turns that a thread which does not sleep needs to end. -/
def State.turns (s : State ε) : ℕ :=
  match s.pc with
  | .ended => 0
  | .loop => 1
  | .executing _ => 2
  | .waiting => 2
  | .pop => 3

theorem State.turns_le (s : State ε) : s.turns ≤ 3 := by
  rw [State.turns]
  split <;> decide

/-- A wait that the thread is in or comes to finds the flag set. -/
def Rung (s : State ε) : Prop := s.pc = .waiting ∨ s.pc = .pop → s.signal.signaled = true

structure Awake (n : ℕ) (s : State ε) : Prop where
  idle : s.signal.waiter = .idle
  rung : Rung s
  turns : s.turns ≤ n

theorem awake_loop {s : State ε} {n : ℕ} (hIdle : s.signal.waiter = .idle) (hPc : s.pc = .loop) :
    Awake (n + 1) s where
  idle := hIdle
  rung h := by simp [hPc] at h
  turns := by
    rw [State.turns, hPc]
    exact Nat.le_add_left 1 n

theorem Awake.signal {n : ℕ} {s : State ε} (h : Awake n s) :
    Awake n { s with signal := s.signal.signal } where
  idle := by
    change s.signal.signal.waiter = .idle
    rw [Event.State.signal, h.idle]
  rung _ := rfl
  turns := h.turns

/-- Every turn of a thread that does not sleep brings it nearer to its end. -/
theorem Awake.threadFunc {n : ℕ} {s : State ε} (h : Awake (n + 1) s)
    (hFrozen : Frozen accepted queue started s) : Awake n s.threadFunc := by
  obtain ⟨hIdle, hRung, hTurns⟩ := h
  rcases hFrozen.threadFunc_cases with
    ⟨hPc, hEq⟩ | ⟨hPc, hEq⟩ | ⟨event, hPc, hEq⟩ | ⟨hPc, hEq⟩ | ⟨hPc, hEq⟩
  · rw [hEq]
    exact ⟨hIdle, fun h => by simp at h, Nat.zero_le n⟩
  · rw [State.turns, hPc] at hTurns
    rw [hEq]
    exact ⟨hIdle, fun _ => hRung (.inr hPc), Nat.le_of_succ_le_succ hTurns⟩
  · rw [State.turns, hPc] at hTurns
    rw [hEq]
    exact ⟨hIdle, fun h => by simp at h, Nat.le_of_succ_le_succ hTurns⟩
  · rw [State.turns, hPc] at hTurns
    have hSet := hRung (.inl hPc)
    have hWait : s.signal.wait true = (⟨false, .idle⟩, some true) := by
      simp [Event.State.wait, hIdle, hSet]
    rw [hEq, hWait]
    exact ⟨rfl, fun h => by simp [State.waited] at h, Nat.le_of_succ_le_succ hTurns⟩
  · rw [hEq]
    exact ⟨hIdle, hRung, by rw [State.turns, hPc]; exact Nat.zero_le n⟩

theorem Awake.step {n : ℕ} {s : State ε} (h : Awake n s)
    (hFrozen : Frozen accepted queue started s) (a : Action ε) : Awake n (step s a) := by
  have hWake : s.waited s.signal.wake = s := waited_of_idle (by rw [Event.State.wake, h.idle])
  have hTimeOut : s.waited s.signal.timeOut = s :=
    waited_of_idle (by rw [Event.State.timeOut, h.idle])
  rcases hFrozen.step_eq a with rfl | rfl | rfl | hEq | hEq
  · have hMore : Awake (n + 1) s := ⟨h.idle, h.rung, h.turns.trans (Nat.le_succ n)⟩
    exact hMore.threadFunc hFrozen
  · rw [QueueThread.step, hWake]
    exact h
  · rw [QueueThread.step, hTimeOut]
    exact h
  · rw [hEq]
    exact h.signal
  · rwa [hEq]

/-- After the signal of the destructor the thread does not block any more. -/
theorem rung_step {s : State ε} (h : Rung s) (hFrozen : Frozen accepted queue started s)
    (a : Action ε) : Rung (step s a) := by
  rcases hFrozen.inv.rests with hIdle | hBlocked | hNotified
  · have hAwake : Awake 3 s := ⟨hIdle, h, s.turns_le⟩
    exact (hAwake.step hFrozen a).rung
  · have hWaiting := hFrozen.inv.waiting (by simp [hBlocked])
    have hSet := h (.inl hWaiting)
    rw [hBlocked] at hSet
    cases hSet
  · have hWaiting := hFrozen.inv.waiting (by simp [hNotified])
    rcases hFrozen.step_eq a with rfl | rfl | rfl | hEq | hEq
    · have hWait : s.signal.wait true = (s.signal, none) := by rw [Event.State.wait, hNotified]
      have hSame : s.threadFunc = s := by
        rw [State.threadFunc, hWaiting]
        exact waited_of_idle hWait
      rwa [QueueThread.step, hSame]
    · intro hPc
      simp [QueueThread.step, State.waited, Event.State.wake, hNotified] at hPc
    · intro hPc
      simp [QueueThread.step, State.waited, Event.State.timeOut, hNotified] at hPc
    · rw [hEq]
      exact fun _ => rfl
    · rwa [hEq]

theorem awake_wake {s : State ε} (h : Rung s) (hFrozen : Frozen accepted queue started s) :
    Awake 3 (step s .wake) := by
  rcases hFrozen.inv.rests with hIdle | hBlocked | hNotified
  · have hAwake : Awake 3 s := ⟨hIdle, h, s.turns_le⟩
    exact hAwake.step hFrozen .wake
  · have hWaiting := hFrozen.inv.waiting (by simp [hBlocked])
    have hSet := h (.inl hWaiting)
    rw [hBlocked] at hSet
    cases hSet
  · apply awake_loop
    · simp [QueueThread.step, State.waited, Event.State.wake, hNotified]
    · simp [QueueThread.step, State.waited, Event.State.wake, hNotified]

/-- Turns of the thread, with anything in between, end it. -/
theorem awake_turns {n : ℕ} {s : State ε} (h : Awake n s) (hFrozen : Frozen accepted queue started s)
    {later : List (Action ε)} (hLater : (List.replicate n .thread).Sublist later) :
    Awake 0 (run step s later) := by
  induction n generalizing s later with
  | zero =>
    have hRun := run_invariant (fun s => Frozen accepted queue started s ∧ Awake 0 s)
      (fun s a hs => ⟨hs.1.step a, hs.2.step hs.1 a⟩) ⟨hFrozen, h⟩ later
    exact hRun.2
  | succ n ih =>
    obtain ⟨first, rest, rfl, hTurn, hRest⟩ := List.cons_sublist_iff.mp hLater
    obtain ⟨hNow, hAwake⟩ := run_of_mem (P := fun s => Frozen accepted queue started s ∧ Awake (n + 1) s)
      (Q := fun s => Frozen accepted queue started s ∧ Awake n s)
      (fun s a hs => ⟨hs.1.step a, hs.2.step hs.1 a⟩) (fun s a hs => ⟨hs.1.step a, hs.2.step hs.1 a⟩)
      (fun s hs => ⟨hs.1.step .thread, hs.2.threadFunc hs.1⟩) ⟨hFrozen, h⟩ hTurn
    rw [run_append]
    exact ih hAwake hNow hRest

theorem ended_of_awake {s : State ε} (h : Awake 0 s) : s.pc = .ended := by
  have hTurns := Nat.le_zero.mp h.turns
  rw [State.turns] at hTurns
  split at hTurns
  · assumption
  · cases hTurns
  · cases hTurns
  · cases hTurns
  · cases hTurns

/-- Once the queue is shut down, a signal of the destructor, the return of the thread from its
wait and three turns of its loop end it, whatever happens in between: the event that it was
executing is finished, and the events in the queue are not executed. -/
theorem shutdown_joins (actions later : List (Action ε))
    (hShutdown : (run step {} actions).q.shutdown = true)
    (hLater : [.ring, .wake, .thread, .thread, .thread].Sublist later) :
    let s := run step {} actions
    let s' := run step s later
    s'.q.terminated = true ∧ s'.executed = s.executed ++ s.executing ∧
      s'.accepted = s.accepted ∧ s'.q.queue = s.q.queue := by
  intro s s'
  have hStart : Frozen s.accepted s.q.queue (s.executed ++ s.executing) s :=
    ⟨run_invariant Inv (fun _ a h => h.step a) inv_init actions, hShutdown, rfl, rfl, rfl⟩
  have hEnd : Frozen s.accepted s.q.queue (s.executed ++ s.executing) s' :=
    run_invariant _ (fun _ a h => h.step a) hStart later
  have hEnded : s'.pc = .ended := by
    obtain ⟨first, rest, hSplit, hRing, hRest⟩ := List.cons_sublist_iff.mp hLater
    obtain ⟨second, turns, hTurns, hWake, hThread⟩ := List.cons_sublist_iff.mp hRest
    obtain ⟨hNow, hRung⟩ := run_of_mem
      (Q := fun t => Frozen s.accepted s.q.queue (s.executed ++ s.executing) t ∧ Rung t)
      (fun _ a h => h.step a) (fun t a h => ⟨h.1.step a, rung_step h.2 h.1 a⟩)
      (fun t h => ⟨h.step .ring, fun _ => by rw [step, if_pos h.shutdown]; rfl⟩) hStart hRing
    obtain ⟨hNext, hAwake⟩ := run_of_mem
      (P := fun t => Frozen s.accepted s.q.queue (s.executed ++ s.executing) t ∧ Rung t)
      (Q := fun t => Frozen s.accepted s.q.queue (s.executed ++ s.executing) t ∧ Awake 3 t)
      (fun t a h => ⟨h.1.step a, rung_step h.2 h.1 a⟩)
      (fun t a h => ⟨h.1.step a, h.2.step h.1 a⟩)
      (fun t h => ⟨h.1.step .wake, awake_wake h.2 h.1⟩) ⟨hNow, hRung⟩ hWake
    apply ended_of_awake
    change Awake 0 (run step s later)
    rw [hSplit, hTurns, run_append, run_append]
    exact awake_turns hAwake hNext hThread
  have hStarted := hEnd.started
  rw [State.executing, hEnded] at hStarted
  exact ⟨hEnd.inv.ended hEnded, (List.append_nil _).symm.trans hStarted, hEnd.accepted, hEnd.queue⟩

theorem three_pushes_join :
    let s := run step {}
      [.push 1, .raise, .push 2, .raise, .thread, .thread, .push 3, .raise, .shutDown]
    let s' := run step s [.thread, .ring, .thread, .wake, .thread, .thread, .thread]
    s'.q.terminated = true ∧ s'.executed = s.executed ++ s.executing ∧
      s'.accepted = s.accepted ∧ s'.q.queue = s.q.queue :=
  shutdown_joins (ε := ℕ)
    [.push 1, .raise, .push 2, .raise, .thread, .thread, .push 3, .raise, .shutDown]
    [.thread, .ring, .thread, .wake, .thread, .thread, .thread] rfl
    ((((((List.Sublist.refl []).cons_cons _).cons_cons _).cons_cons _).cons_cons _).cons _
      |>.cons_cons _ |>.cons _)

end Fxquant.QueueThread
