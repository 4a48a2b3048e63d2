import Fxquant.Optimizer

/-!
# The shutdown of an engine

`~fx_engine` on one thread, the workers of its two event queues on two more. The members are
destroyed in the reverse of their order in the class: `order_events_` is declared after
`data_events_`, so its queue is shut down while the other worker may still execute ticks, whose
order events are then refused.
-/

namespace Fxquant.Shutdown

open Feeder

/-- An `event_queue` with one thread; what the thread executes is kept with it. -/
structure EventQueue (ε : Type) where
  shutdown : Bool := false
  queue : List ε := []
  terminated : Bool := false

namespace EventQueue

variable {ε : Type} (q : EventQueue ε)

def pushEvent (event : ε) : EventQueue ε :=
  if q.shutdown then q else { q with queue := q.queue ++ [event] }

def popEvent : EventQueue ε × Option ε :=
  if q.shutdown then (q, none)
  else
    match q.queue with
    | [] => (q, none)
    | event :: rest => ({ q with queue := rest }, some event)

/-- A turn of the loop of `thread_func` that starts with no event at hand. -/
def threadFunc : EventQueue ε × Option ε :=
  if q.shutdown then ({ q with terminated := true }, none) else q.popEvent

end EventQueue

/-- Where `~fx_engine` is: it has removed the feeder's callback, it is in the destructor of
`order_events_` or past it, and the same for `data_events_`. -/
inductive Stage where
  | running | callbackRemoved | ordersShutDown | ordersDestroyed | dataShutDown | destroyed
  deriving DecidableEq, Repr

/-- The pushes into `order_events_` and the moment it is shut down, in their order. -/
inductive Entry where
  | pushed (event : OrderEvent)
  | shutDown
  deriving DecidableEq, Repr

/-- `executing` is what the worker of the data events has still to push for the event it executes,
`notifying` the event that the worker of the order events executes. -/
structure State (σ : Type) where
  strategy : σ
  data : EventQueue Call := {}
  executing : Option (List OrderEvent) := none
  orders : EventQueue OrderEvent := {}
  notifying : Option OrderEvent := none
  stage : Stage := .running
  log : List Entry := []

inductive Action where
  | feed (call : Call)
  | dataWorker
  | orderWorker
  | destructor
  deriving DecidableEq, Repr

variable {σ : Type}

/-- One step of one of the threads. `process` is the execution of a data event, with the pushes it
makes. A push into the queue after its shutdown, or after its destruction, leaves no event. -/
def step (process : σ → Call → σ × List OrderEvent) (s : State σ) : Action → State σ
  | .feed call => if s.stage = .running then { s with data := s.data.pushEvent call } else s
  | .dataWorker =>
    match s.executing with
    | some (event :: rest) =>
      { s with
        orders := s.orders.pushEvent event
        executing := some rest
        log := s.log ++ [.pushed event] }
    | some [] => { s with executing := none }
    | none =>
      match s.data.threadFunc with
      | (data, some call) =>
        { s with
          data
          strategy := (process s.strategy call).1
          executing := some (process s.strategy call).2 }
      | (data, none) => { s with data }
  | .orderWorker =>
    match s.notifying with
    | some _ => { s with notifying := none }
    | none =>
      let (orders, notifying) := s.orders.threadFunc
      { s with orders, notifying }
  | .destructor =>
    match s.stage with
    | .running => { s with stage := .callbackRemoved }
    | .callbackRemoved =>
      { s with
        orders := { s.orders with shutdown := true }
        stage := .ordersShutDown
        log := s.log ++ [.shutDown] }
    | .ordersShutDown => if s.orders.terminated then { s with stage := .ordersDestroyed } else s
    | .ordersDestroyed =>
      { s with data := { s.data with shutdown := true }, stage := .dataShutDown }
    | .dataShutDown => if s.data.terminated then { s with stage := .destroyed } else s
    | .destroyed => s

def after (process : σ → Call → σ × List OrderEvent) (strategy : σ) (actions : List Action) : State σ :=
  Runs.run (step process) { strategy } actions

/-- Every push comes before the shutdown. -/
def PushesBeforeShutdown (log : List Entry) : Prop :=
  ∀ before event later, log = before ++ .pushed event :: later → .shutDown ∉ before

def NothingLeft (s : State σ) : Prop := ∀ events, s.executing = some events → events = []

/-- When `order_events_` is shut down, the event that is executed has made all its pushes, and the
events that are taken out after that make none. -/
def NoneLeftBehind (process : σ → Call → σ × List OrderEvent) (s : State σ) (a : Action) : Prop :=
  (a = .destructor → s.stage = .callbackRemoved → NothingLeft s) ∧
    (a = .dataWorker → s.executing = none → s.orders.shutdown = true →
      ∀ call, s.data.popEvent.2 = some call → (process s.strategy call).2 = [])

theorem pushesBeforeShutdown_concat (log : List Entry) (entry : Entry) :
    PushesBeforeShutdown (log ++ [entry]) ↔
      PushesBeforeShutdown log ∧ ∀ event, entry = .pushed event → .shutDown ∉ log := by
  constructor
  · intro h
    constructor
    · rintro before event later rfl
      exact h before event (later ++ [entry]) (by simp)
    · rintro event rfl
      exact h log event [] rfl
  · rintro ⟨hLog, hLast⟩ before event later hSplit
    rcases List.eq_nil_or_concat' later with rfl | ⟨later, last, rfl⟩
    · obtain ⟨rfl, hEntry⟩ := List.append_inj' hSplit rfl
      exact hLast event (List.cons.inj hEntry).1
    · have hInit : log ++ [entry] = (before ++ .pushed event :: later) ++ [last] := by simpa using hSplit
      exact hLog before event later (List.append_inj' hInit rfl).1

/-! ### Steps of the worker of the data events -/

theorem step_push (process : σ → Call → σ × List OrderEvent) {s : State σ} {event : OrderEvent}
    {rest : List OrderEvent} (h : s.executing = some (event :: rest)) :
    step process s .dataWorker = { s with
      orders := s.orders.pushEvent event
      executing := some rest
      log := s.log ++ [.pushed event] } := by
  simp only [step, h]

theorem step_return (process : σ → Call → σ × List OrderEvent) {s : State σ}
    (h : s.executing = some []) :
    step process s .dataWorker = { s with executing := none } := by
  simp only [step, h]

theorem step_take (process : σ → Call → σ × List OrderEvent) {s : State σ} {call : Call}
    (h : s.executing = none) (hPop : s.data.popEvent.2 = some call) :
    s.data.shutdown = false ∧ step process s .dataWorker = { s with
      data := s.data.popEvent.1
      strategy := (process s.strategy call).1
      executing := some (process s.strategy call).2 } := by
  have hRunning : s.data.shutdown = false := by
    rw [EventQueue.popEvent] at hPop
    by_contra hShutdown
    rw [if_pos (by simpa using hShutdown)] at hPop
    cases hPop
  have hThread : s.data.threadFunc = (s.data.popEvent.1, some call) := by
    rw [EventQueue.threadFunc, if_neg (by simp [hRunning]), ← hPop]
  exact ⟨hRunning, by simp only [step, h, hThread]⟩

/-- With nothing to take out, the worker waits, or it ends after a shutdown. -/
theorem step_wait (process : σ → Call → σ × List OrderEvent) {s : State σ} (h : s.executing = none)
    (hPop : s.data.popEvent.2 = none) :
    step process s .dataWorker = s ∨
      (s.data.shutdown = true ∧
        step process s .dataWorker = { s with data := { s.data with terminated := true } }) := by
  cases hShutdown : s.data.shutdown with
  | true =>
    have hThread : s.data.threadFunc = ({ s.data with terminated := true }, none) := by
      rw [EventQueue.threadFunc, if_pos hShutdown]
    exact .inr ⟨rfl, by simp only [step, h, hThread]⟩
  | false =>
    have hThread : s.data.threadFunc = (s.data, none) := by
      cases hQueue : s.data.queue with
      | nil => simp [EventQueue.threadFunc, EventQueue.popEvent, hShutdown, hQueue]
      | cons event rest => simp [EventQueue.popEvent, hShutdown, hQueue] at hPop
    left
    obtain ⟨strategy, data, executing, orders, notifying, stage, log⟩ := s
    obtain rfl : executing = none := h
    simp only [step, hThread]

/-! ### The invariant -/

structure Inv (s : State σ) : Prop where
  shutdown : s.orders.shutdown = true ↔ .shutDown ∈ s.log
  terminated : s.data.terminated = true → s.data.shutdown = true ∧ s.executing = none
  destroyed : s.stage = .destroyed → s.data.terminated = true

theorem inv_start (strategy : σ) : Inv { strategy } where
  shutdown := by simp
  terminated h := nomatch h
  destroyed h := nomatch h

theorem shutdown_pushEvent {ε : Type} (q : EventQueue ε) (event : ε) :
    (q.pushEvent event).shutdown = q.shutdown ∧ (q.pushEvent event).terminated = q.terminated := by
  rw [EventQueue.pushEvent]
  split
  · exact ⟨rfl, rfl⟩
  · exact ⟨rfl, rfl⟩

theorem shutdown_popEvent {ε : Type} (q : EventQueue ε) :
    q.popEvent.1.shutdown = q.shutdown ∧ q.popEvent.1.terminated = q.terminated := by
  rw [EventQueue.popEvent]
  split
  · exact ⟨rfl, rfl⟩
  · split
    · exact ⟨rfl, rfl⟩
    · exact ⟨rfl, rfl⟩

theorem shutdown_threadFunc {ε : Type} (q : EventQueue ε) : q.threadFunc.1.shutdown = q.shutdown := by
  rw [EventQueue.threadFunc]
  split
  · rfl
  · exact (shutdown_popEvent q).1

theorem Inv.dataWorker {process : σ → Call → σ × List OrderEvent} {s : State σ} (h : Inv s) :
    Inv (step process s .dataWorker) := by
  cases hExecuting : s.executing with
  | some events =>
    have hAlive : s.data.terminated ≠ true := by
      intro hTerminated
      rw [(h.terminated hTerminated).2] at hExecuting
      cases hExecuting
    cases events with
    | nil =>
      rw [step_return process hExecuting]
      exact ⟨h.shutdown, fun hTerminated => absurd hTerminated hAlive, h.destroyed⟩
    | cons event rest =>
      rw [step_push process hExecuting]
      refine ⟨?_, fun hTerminated => absurd hTerminated hAlive, h.destroyed⟩
      rw [(shutdown_pushEvent s.orders event).1, h.shutdown]
      simp
  | none =>
    cases hPop : s.data.popEvent.2 with
    | some call =>
      obtain ⟨hRunning, hStep⟩ := step_take process hExecuting hPop
      have hAlive : s.data.terminated ≠ true := by
        intro hTerminated
        rw [(h.terminated hTerminated).1] at hRunning
        cases hRunning
      rw [hStep]
      refine ⟨h.shutdown, fun hTerminated => absurd hTerminated ?_,
        fun hStage => absurd (h.destroyed hStage) hAlive⟩
      rwa [(shutdown_popEvent s.data).2]
    | none =>
      rcases step_wait process hExecuting hPop with hStep | ⟨hShutdown, hStep⟩
      · rwa [hStep]
      · rw [hStep]
        exact ⟨h.shutdown, fun _ => ⟨hShutdown, hExecuting⟩, fun _ => rfl⟩

theorem Inv.destructor {process : σ → Call → σ × List OrderEvent} {s : State σ} (h : Inv s) :
    Inv (step process s .destructor) := by
  rw [step]
  cases hStage : s.stage with
  | running => exact ⟨h.shutdown, h.terminated, fun h => nomatch h⟩
  | callbackRemoved => exact ⟨by simp, h.terminated, fun h => nomatch h⟩
  | ordersShutDown =>
    simp only
    split
    · exact ⟨h.shutdown, h.terminated, fun h => nomatch h⟩
    · exact h
  | ordersDestroyed =>
    exact ⟨h.shutdown, fun hTerminated => ⟨rfl, (h.terminated hTerminated).2⟩, fun h => nomatch h⟩
  | dataShutDown =>
    simp only
    split
    · rename_i hTerminated
      exact ⟨h.shutdown, h.terminated, fun _ => hTerminated⟩
    · exact h
  | destroyed => exact h

theorem Inv.step {process : σ → Call → σ × List OrderEvent} {s : State σ} (h : Inv s) (a : Action) :
    Inv (step process s a) := by
  cases a with
  | feed call =>
    rw [Shutdown.step]
    split
    · obtain ⟨hShutdown, hTerminated⟩ := shutdown_pushEvent s.data call
      exact ⟨h.shutdown, by rw [hShutdown, hTerminated]; exact h.terminated,
        by rw [hTerminated]; exact h.destroyed⟩
    · exact h
  | dataWorker => exact h.dataWorker
  | orderWorker =>
    rw [Shutdown.step]
    split
    · exact ⟨h.shutdown, h.terminated, h.destroyed⟩
    · exact ⟨by rw [shutdown_threadFunc]; exact h.shutdown, h.terminated, h.destroyed⟩
  | destructor => exact h.destructor

/-! ### Pushes and the shutdown -/

/-- No push has come after the shutdown, and none is on its way. -/
def Safe (s : State σ) : Prop :=
  PushesBeforeShutdown s.log ∧ (s.orders.shutdown = true → NothingLeft s)

theorem safe_congr {s s' : State σ} (hLog : s'.log = s.log)
    (hShutdown : s'.orders.shutdown = s.orders.shutdown) (hExecuting : s'.executing = s.executing) :
    Safe s' ↔ Safe s := by
  rw [Safe, Safe, NothingLeft, NothingLeft, hLog, hShutdown, hExecuting]

/-- A push after the shutdown is late, and before that it was on its way. -/
theorem safe_push_iff {process : σ → Call → σ × List OrderEvent} {s : State σ} (h : Inv s)
    {event : OrderEvent} {rest : List OrderEvent} (hExecuting : s.executing = some (event :: rest)) :
    Safe (step process s .dataWorker) ↔ Safe s := by
  have hPushed : Safe (step process s .dataWorker) ↔
      (PushesBeforeShutdown s.log ∧ .shutDown ∉ s.log) ∧ (s.orders.shutdown = true → rest = []) := by
    rw [step_push process hExecuting, Safe, pushesBeforeShutdown_concat,
      (shutdown_pushEvent s.orders event).1]
    simp [NothingLeft]
  have hLeft : ¬ NothingLeft s := fun hNothing => nomatch hNothing _ hExecuting
  rw [hPushed, Safe, ← h.shutdown]
  constructor
  · rintro ⟨⟨hLog, hOpen⟩, _⟩
    exact ⟨hLog, fun hShutdown => absurd hShutdown hOpen⟩
  · rintro ⟨hLog, hNothing⟩
    have hOpen : ¬ s.orders.shutdown = true := fun hShutdown => hLeft (hNothing hShutdown)
    exact ⟨⟨hLog, hOpen⟩, fun hShutdown => absurd hShutdown hOpen⟩

theorem safe_dataWorker_iff {process : σ → Call → σ × List OrderEvent} {s : State σ} (h : Inv s) :
    Safe (step process s .dataWorker) ↔ Safe s ∧ NoneLeftBehind process s .dataWorker := by
  cases hExecuting : s.executing with
  | some events =>
    have hBusy : NoneLeftBehind process s .dataWorker :=
      ⟨nofun, fun _ hIdle => nomatch hExecuting.symm.trans hIdle⟩
    rw [and_iff_left hBusy]
    cases events with
    | nil =>
      rw [step_return process hExecuting]
      have hNow : NothingLeft s := fun events hEvents =>
        (Option.some.inj (hExecuting.symm.trans hEvents)).symm
      exact and_congr_right fun _ => iff_of_true (fun _ _ hEvents => nomatch hEvents) fun _ => hNow
    | cons event rest => exact safe_push_iff h hExecuting
  | none =>
    have hNow : NothingLeft s := fun _ hEvents => nomatch hExecuting.symm.trans hEvents
    cases hPop : s.data.popEvent.2 with
    | none =>
      have hNone : NoneLeftBehind process s .dataWorker :=
        ⟨nofun, fun _ _ _ call hCall => nomatch hPop.symm.trans hCall⟩
      rw [and_iff_left hNone]
      rcases step_wait process hExecuting hPop with hStep | ⟨_, hStep⟩
      · rw [hStep]
      · rw [hStep]
        exact safe_congr rfl rfl rfl
    | some call =>
      obtain ⟨_, hStep⟩ := step_take process hExecuting hPop
      rw [hStep, Safe, Safe, and_assoc]
      apply and_congr_right
      intro _
      rw [and_iff_right fun _ => hNow, NoneLeftBehind, and_iff_right nofun]
      simp [NothingLeft, hExecuting, hPop]

theorem safe_destructor_iff (process : σ → Call → σ × List OrderEvent) (s : State σ) :
    Safe (step process s .destructor) ↔ Safe s ∧ NoneLeftBehind process s .destructor := by
  by_cases hStage : s.stage = .callbackRemoved
  · have hShut : Safe (step process s .destructor) ↔ PushesBeforeShutdown s.log ∧ NothingLeft s := by
      simp only [step, hStage, Safe, pushesBeforeShutdown_concat]
      simp [NothingLeft]
    have hNone : NoneLeftBehind process s .destructor ↔ NothingLeft s := by
      simp [NoneLeftBehind, hStage]
    rw [hShut, hNone, Safe]
    constructor
    · exact fun ⟨hLog, hNothing⟩ => ⟨⟨hLog, fun _ => hNothing⟩, hNothing⟩
    · exact fun ⟨⟨hLog, _⟩, hNothing⟩ => ⟨hLog, hNothing⟩
  · have hNone : NoneLeftBehind process s .destructor :=
      ⟨fun _ h => absurd h hStage, nofun⟩
    rw [and_iff_left hNone, step]
    cases hNow : s.stage with
    | running => exact safe_congr rfl rfl rfl
    | callbackRemoved => exact absurd hNow hStage
    | ordersShutDown =>
      simp only
      split
      · exact safe_congr rfl rfl rfl
      · exact Iff.rfl
    | ordersDestroyed => exact safe_congr rfl rfl rfl
    | dataShutDown =>
      simp only
      split
      · exact safe_congr rfl rfl rfl
      · exact Iff.rfl
    | destroyed => exact Iff.rfl

theorem safe_step_iff {process : σ → Call → σ × List OrderEvent} {s : State σ} (h : Inv s)
    (a : Action) : Safe (step process s a) ↔ Safe s ∧ NoneLeftBehind process s a := by
  cases a with
  | feed call =>
    rw [and_iff_left ⟨nofun, nofun⟩, step]
    split
    · exact safe_congr rfl rfl rfl
    · exact Iff.rfl
  | dataWorker => exact safe_dataWorker_iff h
  | orderWorker =>
    rw [and_iff_left ⟨nofun, nofun⟩, step]
    split
    · exact safe_congr rfl rfl rfl
    · exact safe_congr rfl (shutdown_threadFunc s.orders) rfl
  | destructor => exact safe_destructor_iff process s

/-- In a run to the end of the destructor all pushes come before the shutdown of their queue exactly
when none is left at that moment and the ticks executed after it push nothing. -/
theorem run_pushesBeforeShutdown_iff (process : σ → Call → σ × List OrderEvent) (strategy : σ)
    (actions : List Action) (hDestroyed : (after process strategy actions).stage = .destroyed) :
    PushesBeforeShutdown (after process strategy actions).log ↔
      Runs.Always (step process) (NoneLeftBehind process) { strategy } actions := by
  have hInv : Inv (after process strategy actions) :=
    Runs.run_invariant Inv (fun _ a h => h.step a) (inv_start strategy) actions
  have hStart : Safe ({ strategy } : State σ) :=
    ⟨fun before event later hLog => by simp at hLog, fun h => nomatch h⟩
  have hRun : Safe (after process strategy actions) ↔ Safe ({ strategy } : State σ) ∧
      Runs.Always (step process) (NoneLeftBehind process) { strategy } actions :=
    Runs.run_iff_always Inv Safe (fun _ a h => h.step a) (fun _ a h => safe_step_iff h a)
      (inv_start strategy) actions
  have hIdle : (after process strategy actions).executing = none :=
    (hInv.terminated (hInv.destroyed hDestroyed)).2
  rw [← hRun.trans (and_iff_right hStart), Safe, and_iff_left]
  exact fun _ events hEvents => nomatch hIdle.symm.trans hEvents

/-! ### An engine with a ladder strategy -/

/-- The execution of a data event, with the order events that it adds. -/
def ladderProcess (s : Ladder.Env × Ladder.State) (call : Call) :
    (Ladder.Env × Ladder.State) × List OrderEvent :=
  let next := Optimizer.ladderEvent s call
  (next, next.2.engine.orderEvents.drop s.2.engine.orderEvents.length)

def newLadder : Ladder.Env × Ladder.State := (Optimizer.twentyPoints, Ladder.start 0)

def firstTick : Call := .onTick (quote 1.0000 1.0001 0)

/-- The destructor comes in between the open of the two orders of a tick and their events. -/
def overtaken : List Action :=
  [.feed firstTick, .dataWorker, .destructor, .destructor, .orderWorker, .destructor, .dataWorker,
    .dataWorker, .dataWorker, .destructor, .dataWorker, .destructor]

theorem overtaken_pushes_are_late :
    (after ladderProcess newLadder overtaken).stage = .destroyed ∧
      ¬ PushesBeforeShutdown (after ladderProcess newLadder overtaken).log := by
  refine ⟨by decide +kernel, fun hBefore => ?_⟩
  have hLog : (after ladderProcess newLadder overtaken).log =
      [.shutDown] ++ (ladderProcess newLadder firstTick).2.map .pushed := by
    decide +kernel
  have hPushes : (ladderProcess newLadder firstTick).2 ≠ [] := by decide +kernel
  obtain ⟨event, later, hCons⟩ := List.exists_cons_of_ne_nil hPushes
  rw [hCons] at hLog
  exact hBefore [.shutDown] event (later.map .pushed) hLog List.mem_cons_self

/-- The same tick, executed before the destructor starts. -/
def inTime : List Action :=
  [.feed firstTick, .dataWorker, .dataWorker, .dataWorker, .dataWorker, .destructor, .destructor,
    .orderWorker, .destructor, .destructor, .dataWorker, .destructor]

theorem inTime_leaves_none_behind :
    Runs.Always (step ladderProcess) (NoneLeftBehind ladderProcess) { strategy := newLadder } inTime := by
  apply (run_pushesBeforeShutdown_iff ladderProcess newLadder inTime (by decide +kernel)).mp
  have hLog : (after ladderProcess newLadder inTime).log =
      (ladderProcess newLadder firstTick).2.map .pushed ++ [.shutDown] := by
    decide +kernel
  rw [hLog, pushesBeforeShutdown_concat]
  refine ⟨fun before event later hSplit hMem => ?_, fun _ hEntry => nomatch hEntry⟩
  have hPushed : Entry.shutDown ∈ (ladderProcess newLadder firstTick).2.map Entry.pushed :=
    hSplit ▸ List.mem_append_left _ hMem
  simp at hPushed

end Fxquant.Shutdown
