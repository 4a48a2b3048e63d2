import Fxquant.Engine.QueueThread
import Fxquant.Feeder.Control

/-!
# From a feeder to the worker of an engine

The threads of a feeder with `feeder_callback` and `data_event_queue`. Each call of a thread pushes an
event, and the thread goes on when the push has signalled; the worker executes the events.
-/

namespace Fxquant.DataEvents

open Runs Feeder Shutdown

/-- `pushed` counts the calls that have come to their push. -/
structure State where
  control : Control := {}
  queue : QueueThread.State Call := {}
  pushed : ℕ := 0

inductive Action where
  | feeder (i : Control.Step)
  | push
  | worker (a : QueueThread.Action Call)

namespace State

variable (s : State)

/-- The thread of the feeder is within a call. -/
def calling : Bool := s.pushed < s.control.calls.length || s.queue.raising

def push : State :=
  match s.control.calls[s.pushed]? with
  | some call =>
    if s.queue.raising then s
    else { s with queue := QueueThread.step s.queue (.push call), pushed := s.pushed + 1 }
  | none => s

end State

/-- What the thread of the feeder does itself. -/
def ofThread : Control.Step → Bool
  | .turn => true
  | .fail => true
  | _ => false

def isPush : QueueThread.Action Call → Bool
  | .push _ => true
  | _ => false

/-- Nobody but the feeder pushes. -/
def step (setup : Setup) (s : State) : Action → State
  | .feeder i =>
    if s.calling && ofThread i then s else { s with control := s.control.step setup i }
  | .push => s.push
  | .worker a => if isPush a then s else { s with queue := QueueThread.step s.queue a }

/-! ### The invariant -/

/-- What the queue has accepted are the calls that have come to their push, as long as it runs. -/
structure Inv (setup : Setup) (s : State) : Prop where
  control : Control.Inv setup s.control
  queue : QueueThread.Inv s.queue
  pushed : s.pushed ≤ s.control.calls.length
  accepted : s.queue.accepted <+: s.control.calls
  running : s.queue.q.shutdown = false → s.queue.accepted = s.control.calls.take s.pushed
  alive : s.queue.pc = .ended → s.queue.q.shutdown = true

variable {setup : Setup} {s : State}

theorem inv_init (setup : Setup) : Inv setup {} where
  control := .empty setup
  queue := QueueThread.inv_init
  pushed := le_rfl
  accepted := List.prefix_rfl
  running _ := rfl
  alive h := by cases h

theorem Inv.feeder (h : Inv setup s) (i : Control.Step) : Inv setup (step setup s (.feeder i)) := by
  rw [step]
  split
  · exact h
  have hGrow : s.control.calls <+: (s.control.step setup i).calls := by
    by_cases hTurn : i = .turn
    · subst hTurn
      exact s.control.calls_turn setup
    · rw [s.control.calls_step setup hTurn]
  constructor
  case control => exact h.control.step i
  case queue => exact h.queue
  case pushed => exact h.pushed.trans hGrow.length_le
  case accepted => exact h.accepted.trans hGrow
  case running =>
    intro hRunning
    obtain ⟨more, hCalls⟩ := hGrow
    change s.queue.accepted = (s.control.step setup i).calls.take s.pushed
    rw [← hCalls, List.take_append_of_le_length h.pushed]
    exact h.running hRunning
  case alive => exact h.alive

theorem Inv.push (h : Inv setup s) : Inv setup s.push := by
  rw [State.push]
  split
  · rename_i call hCall
    split
    · exact h
    · rename_i hFree
      have hLt : s.pushed < s.control.calls.length := (List.getElem?_eq_some_iff.mp hCall).1
      have hQueue := h.queue.step (.push call)
      cases hShutdown : s.queue.q.shutdown with
      | true =>
        have hRefused : QueueThread.step s.queue (.push call) = s.queue := by
          rw [QueueThread.step, if_pos (by simp [hShutdown])]
        rw [hRefused]
        exact {
          control := h.control
          queue := h.queue
          pushed := hLt
          accepted := h.accepted
          running := fun hRunning => by rw [hShutdown] at hRunning; cases hRunning
          alive := h.alive }
      | false =>
        have hTaken : QueueThread.step s.queue (.push call) =
            { s.queue with
              q := s.queue.q.pushEvent call
              raising := true
              accepted := s.queue.accepted ++ [call] } := by
          rw [QueueThread.step, if_neg (by simp [hShutdown, hFree])]
        have hAccepted : s.queue.accepted ++ [call] = s.control.calls.take (s.pushed + 1) := by
          rw [List.take_add_one, hCall, h.running hShutdown]
          rfl
        rw [hTaken] at hQueue ⊢
        constructor
        case control => exact h.control
        case queue => exact hQueue
        case pushed => exact hLt
        case accepted =>
          change s.queue.accepted ++ [call] <+: s.control.calls
          rw [hAccepted]
          exact List.take_prefix _ _
        case running => exact fun _ => hAccepted
        case alive =>
          intro hEnded
          have hNever := h.alive hEnded
          rw [hShutdown] at hNever
          cases hNever
  · exact h

theorem Inv.worker (h : Inv setup s) (a : QueueThread.Action Call) :
    Inv setup (step setup s (.worker a)) := by
  rw [step]
  split
  · exact h
  · rename_i hOther
    have hPush : ∀ event, a ≠ .push event := by
      rintro event rfl
      exact hOther rfl
    obtain ⟨hAccepted, hShutdown, hEnded⟩ := QueueThread.step_keeps s.queue hPush
    constructor
    case control => exact h.control
    case queue => exact h.queue.step a
    case pushed => exact h.pushed
    case accepted =>
      dsimp only
      rw [hAccepted]
      exact h.accepted
    case running =>
      intro hRunning
      dsimp only
      rw [hAccepted]
      exact h.running (hShutdown hRunning)
    case alive =>
      intro hPc
      by_contra hRunning
      have hBefore := hShutdown (by simpa using hRunning)
      rcases hEnded hPc with hOver | hOver
      · rw [h.alive hOver] at hBefore
        cases hBefore
      · rw [hOver] at hBefore
        cases hBefore

theorem Inv.step (h : Inv setup s) (a : Action) : Inv setup (step setup s a) := by
  cases a with
  | feeder i => exact h.feeder i
  | push => exact h.push
  | worker a => exact h.worker a

theorem inv_run (setup : Setup) (actions : List Action) : Inv setup (run (step setup) {} actions) :=
  run_invariant (Inv setup) (fun _ a h => h.step a) (inv_init setup) actions

/-- What has been executed are calls from the first one on. -/
theorem Inv.executed_prefix (h : Inv setup s) : s.queue.executed <+: s.control.calls := by
  refine List.IsPrefix.trans ?_ h.accepted
  rw [h.queue.fifo, List.append_assoc]
  exact List.prefix_append _ _

/-! ### Rest -/

/-- No call is on its way, and the worker sleeps. -/
structure Rests (s : State) : Prop where
  pushed : s.pushed = s.control.calls.length
  free : s.queue.raising = false
  asleep : s.queue.signal.waiter = .blocked true
  running : s.queue.q.shutdown = false

theorem Inv.executed_eq (h : Inv setup s) (hRests : Rests s) : s.queue.executed = s.control.calls := by
  rw [h.queue.executed_eq hRests.asleep hRests.free hRests.running, h.running hRests.running,
    hRests.pushed, List.take_length]

/-- The calls are pushed, and the worker serves them. -/
inductive Serving : Action → Prop where
  | push : Serving .push
  | worker {a : QueueThread.Action Call} : QueueThread.Serving a → Serving (.worker a)

/-- What is left to do, where each push makes for eleven turns at most. -/
def State.work (s : State) : ℕ := 12 * (s.control.calls.length - s.pushed) + s.queue.work

theorem work_push {q : QueueThread.State Call} (hFree : q.raising = false)
    (hRunning : q.q.shutdown = false) (call : Call) :
    (QueueThread.step q (.push call)).work = q.work + 11 := by
  have hTaken : QueueThread.step q (.push call) =
      { q with
        q := { q.q with queue := q.q.queue ++ [call] }
        raising := true
        accepted := q.accepted ++ [call] } := by
    rw [QueueThread.step, if_neg (by simp [hRunning, hFree]), EventQueue.pushEvent,
      if_neg (by simp [hRunning])]
  rw [hTaken, QueueThread.State.work, QueueThread.State.work, hFree, if_pos rfl,
    if_neg Bool.false_ne_true]
  dsimp only
  rw [List.length_append, List.length_singleton]
  omega

theorem push_eq {call : Call} (hCall : s.control.calls[s.pushed]? = some call)
    (hFree : s.queue.raising = false) :
    s.push = { s with queue := QueueThread.step s.queue (.push call), pushed := s.pushed + 1 } := by
  rw [State.push, hCall]
  dsimp only
  rw [hFree, if_neg Bool.false_ne_true]

theorem rests_or_turn (h : Inv setup s) (hRunning : s.queue.q.shutdown = false) :
    Rests s ∨ ∃ a, Serving a ∧ (Inv setup (step setup s a) ∧
      (step setup s a).queue.q.shutdown = false ∧ (step setup s a).control = s.control) ∧
        (step setup s a).work < s.work := by
  have hAlive : s.queue.pc ≠ .ended := by
    intro hEnded
    rw [h.alive hEnded] at hRunning
    cases hRunning
  have hQueue : QueueThread.Running s.queue := ⟨h.queue, hRunning, hAlive⟩
  rcases hQueue.turn with ⟨hFree, hAsleep⟩ | ⟨a, hServing, hNext, hLess⟩
  · rcases h.pushed.lt_or_eq with hLt | hAll
    · obtain ⟨call, hCall⟩ : ∃ call, s.control.calls[s.pushed]? = some call :=
        ⟨_, List.getElem?_eq_getElem hLt⟩
      have hWork := work_push hFree hRunning call
      have hPush := push_eq hCall hFree
      refine .inr ⟨.push, .push, ⟨h.push, ?_, ?_⟩, ?_⟩
      · change s.push.queue.q.shutdown = false
        rw [hPush, QueueThread.step, if_neg (by simp [hFree, hRunning]), EventQueue.pushEvent,
          if_neg (by simp [hRunning])]
        exact hRunning
      · change s.push.control = s.control
        rw [hPush]
      · change s.push.work < s.work
        rw [hPush, State.work, State.work, hWork]
        dsimp only
        omega
    · exact .inl ⟨hAll, hFree, hAsleep, hRunning⟩
  · have hStep : step setup s (.worker a) = { s with queue := QueueThread.step s.queue a } := by
      cases hServing <;> rfl
    have hInv := h.worker a
    rw [hStep] at hInv
    refine .inr ⟨.worker a, .worker hServing, ?_⟩
    rw [hStep]
    exact ⟨⟨hInv, hNext.running, rfl⟩, Nat.add_lt_add_left hLess _⟩

/-- As long as the queue runs, pushes and worker come to rest without another turn of the feeder. -/
theorem reaches_rest (h : Inv setup s) (hRunning : s.queue.q.shutdown = false) :
    Reaches (step setup) Serving s fun t => Rests t ∧ Inv setup t ∧ t.control = s.control := by
  apply Reaches.of_measure
    (fun t => Inv setup t ∧ t.queue.q.shutdown = false ∧ t.control = s.control) State.work
  · rintro t ⟨ht, hOn, hControl⟩
    rcases rests_or_turn ht hOn with hRests | ⟨a, hServing, ⟨hInv, hStill, hSame⟩, hLess⟩
    · exact .inl ⟨hRests, ht, hControl⟩
    · exact .inr ⟨a, hServing, ⟨hInv, hStill, hSame.trans hControl⟩, hLess⟩
  · exact ⟨h, hRunning, rfl⟩

/-- However feeder, worker and destructor interleave, the worker has executed the calls of one loop over
the ticks of all threads, from the first one on and in their order; and as long as the queue
runs, pushes and worker have only to go on, and it sleeps with all of them executed. -/
theorem calls_executed (setup : Setup) (actions : List Action) :
    let s := run (step setup) {} actions
    let calls := (controlledLoop setup.lookbackMinutes (newFactories, 0)
      (s.control.history.flatMap Cycle.ticks)).2
    s.queue.executed <+: calls ∧
      (s.queue.q.shutdown = false → ∃ later, (∀ a ∈ later, Serving a) ∧
        let t := run (step setup) s later
        t.control = s.control ∧ t.queue.signal.waiter = .blocked true ∧ t.queue.executed = calls) := by
  intro s calls
  have h : Inv setup s := inv_run setup actions
  have hCalls : calls = s.control.calls := congrArg Prod.snd h.control.calls
  rw [hCalls]
  refine ⟨h.executed_prefix, fun hRunning => ?_⟩
  obtain ⟨later, hServing, hRests, hInv, hControl⟩ := reaches_rest h hRunning
  refine ⟨later, hServing, hControl, hRests.asleep, ?_⟩
  rw [hInv.executed_eq hRests, hControl]

end Fxquant.DataEvents
