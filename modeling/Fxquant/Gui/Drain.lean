import Fxquant.Gui.Delivery

/-!
# The send thread comes to rest

Left to itself on a connection that is up, the send thread goes round its loop until nothing is
pending any more, and then sleeps. Each round that sends bars or order events leaves one vector
or one symbol less.
-/

namespace Fxquant.Gui.Delivery

open Runs SendThread

def turns (n : ℕ) : List Action := List.replicate n (.send true)

/-- Some turns of the thread lead to a state with a property. -/
abbrev Leads (s : SendThread.State) (P : SendThread.State → Prop) : Prop :=
  Reaches step (· = .send true) s P

theorem Leads.turn {s : SendThread.State} {P : SendThread.State → Prop}
    (h : Leads (step s (.send true)) P) : Leads s P := Reaches.turn rfl h

def pendingCount (ctx : Context) : ℕ := ctx.vectorCount + ctx.orderCount

/-- The thread is at a place of its loop, with at most so many vectors and symbols pending. -/
structure At (signaled : Bool) (pc : Pc) (count : ℕ) (s : SendThread.State) : Prop where
  stage : s.stage = .sending
  free : s.raising = false
  live : Live s.sender
  event : s.event = ⟨signaled, .idle⟩
  pc : s.sender.pc = pc
  count : pendingCount s.sender.ctx ≤ count

structure Waiting (signaled : Bool) (count : ℕ) (s : SendThread.State) : Prop where
  stage : s.stage = .waiting
  free : s.raising = false
  live : Live s.sender
  event : s.event = ⟨signaled, .idle⟩
  pc : s.sender.pc = .loop
  count : pendingCount s.sender.ctx ≤ count

variable {signaled : Bool} {count : ℕ} {s : SendThread.State}

theorem At.turn {pc : Pc} (h : At signaled pc count s) :
    step s (.send true) = { s with
      sender := s.sender.act true
      stage := if sendsTicks s.sender && (s.sender.act true).pc == .loop
        then .testing else .sending } := by
  rw [step, SendThread.State.threadFunc, h.stage, h.free]
  rfl

/-- A turn that does not end in `send_ticks`. -/
theorem At.next {pc pc' : Pc} {count' : ℕ} (h : At signaled pc count s)
    (hTicks : sendsTicks s.sender = false) (hPc : (s.sender.act true).pc = pc')
    (hCount : pendingCount (s.sender.act true).ctx ≤ count') :
    At signaled pc' count' (step s (.send true)) := by
  rw [h.turn, hTicks]
  exact ⟨rfl, h.free, live_act_true h.live, h.event, hPc, hCount⟩

theorem At.write {fn : Fn} {w : Write} {left : List Write}
    (h : At signaled (.writing fn (w :: left)) count s) :
    At signaled (.writing fn left) count (step s (.send true)) := by
  have hUp : (s.sender.canceled || s.sender.aborted) ≠ true := by simp [h.live.1, h.live.2]
  have hAct : s.sender.act true = { s.sender with
      stream := s.sender.stream ++ [⟨w, true⟩]
      pc := .writing fn left } := by
    simp only [Sender.act, h.pc, if_neg hUp]
    rfl
  rw [h.turn, hAct, if_neg (by simp)]
  exact ⟨rfl, h.free, h.live, h.event, rfl, h.count⟩

theorem At.writes {fn : Fn} {left : List Write} (h : At signaled (.writing fn left) count s) :
    Leads s (At signaled (.writing fn []) count) := by
  induction left generalizing s with
  | nil => exact .here h
  | cons w left ih => exact .turn (ih h.write)

theorem act_done {fn : Fn} {s : Sender} (hPc : s.pc = .writing fn []) :
    s.act true = s.returned true fn := by
  rw [Sender.act, hPc]

theorem returned_ctx (s : Sender) (result : Bool) (fn : Fn) : (s.returned result fn).ctx = s.ctx := by
  obtain ⟨pc, initialized, hEq⟩ := s.returned_eq result fn
  rw [hEq]

theorem At.status {left : List Write} (h : At signaled (.writing .sendStatus left) count s) :
    Leads s (At signaled .loop count) := by
  refine h.writes.trans fun t ht => ?_
  have hAct := act_done ht.pc
  refine Leads.turn (.here (ht.next ?_ ?_ ?_))
  · rw [sendsTicks, ht.pc]
  · rw [hAct]
    rfl
  · rw [hAct, returned_ctx]
    exact ht.count

/-- After `send_orders`, with the status message where it is due. -/
theorem At.loop_of_pc {pc : Pc} {t : SendThread.State} (h : At signaled pc count t)
    (hPc : pc = .loop ∨ pc = .writing .sendStatus [.message .status]) :
    Leads t (At signaled .loop count) := by
  rcases hPc with rfl | rfl
  · exact .here h
  · exact h.status

theorem At.orders {barsSent : Bool} {left : List Write}
    (h : At signaled (.writing (.sendOrders barsSent) left) count s) :
    Leads s (At signaled .loop count) := by
  refine h.writes.trans fun t ht => ?_
  have hAct := act_done ht.pc
  have hTicks : sendsTicks t.sender = false := by rw [sendsTicks, ht.pc]
  have hCount : pendingCount (t.sender.act true).ctx ≤ count := by
    rw [hAct, returned_ctx]
    exact ht.count
  apply Leads.turn
  rcases returned_sendOrders_pc t.sender barsSent true with ⟨_, hPc⟩ | ⟨hNever, _⟩
  · rw [← hAct] at hPc
    exact (ht.next hTicks rfl hCount).loop_of_pc hPc
  · rw [Bool.or_true] at hNever
    cases hNever

theorem orderCount_takeBars (ctx : Context) : ctx.takeBars.2.orderCount = ctx.orderCount :=
  ctx.takeBars_sumOf fun _ _ => rfl

theorem vectorCount_takeOrders (ctx : Context) : ctx.takeOrders.2.vectorCount = ctx.vectorCount :=
  ctx.takeFirst_sumOf fun _ _ => rfl

theorem pendingCount_takeOrders (ctx : Context) :
    (if ctx.takeOrders.1 = [] then 0 else 1) + pendingCount ctx.takeOrders.2 = pendingCount ctx := by
  have hOrders := ctx.orderCount_takeOrders
  rw [pendingCount, pendingCount, vectorCount_takeOrders, ← hOrders]
  exact Nat.add_left_comm _ _ _

theorem pendingCount_takeBars (ctx : Context) :
    (if ctx.takeBars.1.bars = [] then 0 else 1) + pendingCount ctx.takeBars.2 = pendingCount ctx := by
  have hBars := ctx.vectorCount_takeBars
  rw [pendingCount, pendingCount, orderCount_takeBars, ← hBars]
  exact (Nat.add_assoc _ _ _).symm

/-- Order events are sent, or there are none; then the thread goes on by what `send_bars` said. -/
theorem At.takeOrders {barsSent : Bool} (h : At signaled (.takeOrders barsSent) count s) :
    (∃ less, count = less + 1 ∧ Leads s (At signaled .loop less)) ∨
      (barsSent = true ∧ Leads s (At signaled .loop count)) ∨
      (barsSent = false ∧ Leads s (At signaled .takeInfo count)) := by
  have hTaken := pendingCount_takeOrders s.sender.ctx
  have hLe := h.count
  have hTicks : sendsTicks s.sender = false := by rw [sendsTicks, h.pc]
  rcases act_takeOrders h.pc true with ⟨hNone, hEq⟩ | ⟨hSome, hEq⟩
  · rw [if_pos hNone, zero_add] at hTaken
    have hCount : pendingCount (s.sender.act true).ctx ≤ count := by
      rw [hEq, returned_ctx]
      exact hTaken.trans_le hLe
    rcases returned_sendOrders_pc { s.sender with ctx := s.sender.ctx.takeOrders.2 } barsSent false with
      ⟨hSent, hPc⟩ | ⟨hSent, hPc⟩
    · rw [Bool.or_false] at hSent
      rw [← hEq] at hPc
      exact .inr (.inl ⟨hSent, .turn ((h.next hTicks rfl hCount).loop_of_pc hPc)⟩)
    · rw [Bool.or_false] at hSent
      refine .inr (.inr ⟨hSent, .turn (.here (h.next hTicks ?_ hCount))⟩)
      rw [hEq, hPc]
  · rw [if_neg hSome] at hTaken
    have hPos : 0 < count := by omega
    have hWrites : At signaled (.writing (.sendOrders barsSent)
        (s.sender.ctx.takeOrders.1.map fun info => .message (.order info))) (count - 1)
        (step s (.send true)) := by
      apply h.next hTicks
      · rw [hEq]
      · rw [hEq]
        change pendingCount s.sender.ctx.takeOrders.2 ≤ count - 1
        omega
    exact .inl ⟨count - 1, by omega, .turn hWrites.orders⟩

/-- A round sends something and there is less pending, or gets past the order events. -/
theorem At.round (h : At signaled .loop count s) :
    (∃ less, less < count ∧ Leads s (At signaled .loop less)) ∨ Leads s (At signaled .takeInfo count) := by
  have hTaken := pendingCount_takeBars s.sender.ctx
  have hLe := h.count
  have hTicks : sendsTicks s.sender = false := by rw [sendsTicks, h.pc]
  rcases act_loop h.pc true with ⟨hLost, _⟩ | ⟨_, hNone, hEq⟩ | ⟨_, hSome, hEq⟩
  · exact absurd h.live hLost
  · rw [if_pos hNone, zero_add] at hTaken
    have hOrders : At signaled (.takeOrders false) count (step s (.send true)) := by
      apply h.next hTicks
      · rw [hEq]
      · rw [hEq]
        exact hTaken.trans_le hLe
    rcases hOrders.takeOrders with ⟨less, hLess, hLeads⟩ | ⟨hNever, _⟩ | ⟨_, hLeads⟩
    · exact .inl ⟨less, by omega, .turn hLeads⟩
    · cases hNever
    · exact .inr (.turn hLeads)
  · rw [if_neg hSome] at hTaken
    have hWrites : At signaled (.writing .sendBars (barWrites s.sender.ctx.takeBars.1)) (count - 1)
        (step s (.send true)) := by
      apply h.next hTicks
      · rw [hEq]
      · rw [hEq]
        change pendingCount s.sender.ctx.takeBars.2 ≤ count - 1
        omega
    left
    refine ⟨count - 1, by omega, .turn (hWrites.writes.trans fun t ht => ?_)⟩
    have hAct := act_done ht.pc
    have hOrders : At signaled (.takeOrders true) (count - 1) (step t (.send true)) := by
      apply ht.next
      · rw [sendsTicks, ht.pc]
      · rw [hAct]
        rfl
      · rw [hAct, returned_ctx]
        exact ht.count
    apply Leads.turn
    rcases hOrders.takeOrders with ⟨less, hLess, hLeads⟩ | ⟨_, hLeads⟩ | ⟨hNever, _⟩
    · refine hLeads.trans fun u hu => .here { hu with count := hu.count.trans (by omega) }
    · exact hLeads
    · cases hNever

theorem At.ticks {left : List Write} (h : At signaled (.writing .sendTicks left) count s) :
    Leads s (Waiting signaled count) := by
  refine h.writes.trans fun t ht => ?_
  have hAct := act_done ht.pc
  have hLive := live_act_true ht.live
  have hTesting : step t (.send true) =
      { t with sender := t.sender.returned true .sendTicks, stage := .testing } := by
    rw [ht.turn, hAct, if_pos]
    rw [sendsTicks, ht.pc]
    rfl
  rw [hAct] at hLive
  have hWaiting : step (step t (.send true)) (.send true) =
      { t with sender := t.sender.returned true .sendTicks, stage := .waiting } := by
    rw [hTesting, step, SendThread.State.threadFunc]
    simp [hLive.1, hLive.2]
  refine Leads.turn (Leads.turn (.here ?_))
  rw [hWaiting]
  exact ⟨rfl, ht.free, hLive, ht.event, rfl, ht.count⟩

theorem pendingCount_takeInfo (ctx : Context) : pendingCount ctx.takeInfo.2 = pendingCount ctx :=
  congrArg₂ (· + ·) (ctx.takeFirst_sumOf fun _ _ => rfl) (ctx.takeFirst_sumOf fun _ _ => rfl)

theorem pendingCount_takeTicks (ctx : Context) : pendingCount ctx.takeTicks.2 = pendingCount ctx :=
  congrArg₂ (· + ·) (ctx.takeTicks_sumOf fun _ _ => rfl) (ctx.takeTicks_sumOf fun _ _ => rfl)

theorem At.takeTicks (h : At signaled .takeTicks count s) : Leads s (Waiting signaled count) := by
  obtain ⟨writes, hAct⟩ : ∃ writes, s.sender.act true =
      { s.sender with ctx := s.sender.ctx.takeTicks.2, pc := .writing .sendTicks writes } :=
    ⟨_, act_takeTicks h.pc true⟩
  have hWrites : At signaled (.writing .sendTicks writes) count (step s (.send true)) := by
    apply h.next
    · rw [sendsTicks, h.pc]
    · rw [hAct]
    · rw [hAct]
      exact (pendingCount_takeTicks _).trans_le h.count
  exact .turn hWrites.ticks

theorem At.info {left : List Write} (h : At signaled (.writing .sendInfo left) count s) :
    Leads s (Waiting signaled count) := by
  refine h.writes.trans fun t ht => ?_
  have hAct := act_done ht.pc
  have hNext : At signaled .takeTicks count (step t (.send true)) := by
    apply ht.next
    · rw [sendsTicks, ht.pc]
    · rw [hAct]
      rfl
    · rw [hAct, returned_ctx]
      exact ht.count
  exact Leads.turn hNext.takeTicks

theorem At.takeInfo (h : At signaled .takeInfo count s) : Leads s (Waiting signaled count) := by
  have hTicks : sendsTicks s.sender = false := by rw [sendsTicks, h.pc]
  have hCount : pendingCount s.sender.ctx.takeInfo.2 ≤ count :=
    (pendingCount_takeInfo _).trans_le h.count
  rcases act_takeInfo h.pc true with hEq | hEq
  · have hNext : At signaled .takeTicks count (step s (.send true)) := by
      apply h.next hTicks
      · rw [hEq]
      · rw [hEq]
        exact hCount
    exact .turn hNext.takeTicks
  · have hNext : At signaled (.writing .sendInfo [.message (.info s.sender.ctx.takeInfo.1)]) count
        (step s (.send true)) := by
      apply h.next hTicks
      · rw [hEq]
      · rw [hEq]
        exact hCount
    exact .turn hNext.info

/-- Round after round, the thread gets to its wait. -/
theorem At.loop (h : At signaled .loop count s) : Leads s fun t => ∃ left, Waiting signaled left t := by
  induction count using Nat.strong_induction_on generalizing s with
  | _ count ih =>
    rcases h.round with ⟨less, hLess, hLeads⟩ | hLeads
    · exact hLeads.trans fun t ht => ih less hLess ht
    · exact hLeads.trans fun t ht => ht.takeInfo.trans fun u hu => .here ⟨count, hu⟩

def Asleep (s : SendThread.State) : Prop := s.event.waiter = .blocked true ∧ s.raising = false

theorem Waiting.blocks (h : Waiting false count s) : Leads s Asleep := by
  refine .turn (.here ?_)
  rw [step, SendThread.State.threadFunc, h.stage]
  simp only [SendThread.State.waited, Event.State.wait, h.event]
  exact ⟨rfl, h.free⟩

/-- A wait that finds the event set goes round once more. -/
theorem Waiting.sleeps (h : Waiting signaled count s) : Leads s Asleep := by
  cases signaled with
  | false => exact h.blocks
  | true =>
    have hLoop : At false .loop count (step s (.send true)) := by
      rw [step, SendThread.State.threadFunc, h.stage]
      simp only [SendThread.State.waited, Event.State.wait, h.event]
      exact ⟨rfl, h.free, h.live, rfl, h.pc, h.count⟩
    refine .turn (hLoop.loop.trans ?_)
    rintro t ⟨left, ht⟩
    exact ht.blocks

theorem At.loop_sleeps (h : At signaled .loop count s) : Leads s Asleep := by
  refine h.loop.trans ?_
  rintro t ⟨left, ht⟩
  exact ht.sleeps

theorem At.takeOrders_sleeps {barsSent : Bool} (h : At signaled (.takeOrders barsSent) count s) :
    Leads s Asleep := by
  rcases h.takeOrders with ⟨_, _, hLeads⟩ | ⟨_, hLeads⟩ | ⟨_, hLeads⟩
  · exact hLeads.trans fun t ht => ht.loop_sleeps
  · exact hLeads.trans fun t ht => ht.loop_sleeps
  · exact hLeads.trans fun t ht => ht.takeInfo.trans fun u hu => hu.sleeps

/-- Wherever the thread is in its loop, it gets to sleep. -/
theorem At.sleeps {pc : Pc} (h : At signaled pc count s) (hPc : pc ≠ .ended) : Leads s Asleep := by
  cases pc with
  | loop => exact h.loop_sleeps
  | takeOrders barsSent => exact h.takeOrders_sleeps
  | takeInfo => exact h.takeInfo.trans fun t ht => ht.sleeps
  | takeTicks => exact h.takeTicks.trans fun t ht => ht.sleeps
  | writing fn left =>
    cases fn with
    | sendBars =>
      refine h.writes.trans fun t ht => ?_
      have hAct := act_done ht.pc
      have hNext : At signaled (.takeOrders true) count (step t (.send true)) := by
        apply ht.next
        · rw [sendsTicks, ht.pc]
        · rw [hAct]
          rfl
        · rw [hAct, returned_ctx]
          exact ht.count
      exact Leads.turn hNext.takeOrders_sleeps
    | sendOrders barsSent => exact h.orders.trans fun t ht => ht.loop_sleeps
    | sendStatus => exact h.status.trans fun t ht => ht.loop_sleeps
    | sendInfo => exact h.info.trans fun t ht => ht.sleeps
    | sendTicks => exact h.ticks.trans fun t ht => ht.sleeps
  | ended => exact absurd rfl hPc

/-! ### Every state of a run -/

theorem returned_pc (s : Sender) (result : Bool) (fn : Fn) : (s.returned result fn).pc ≠ .ended := by
  cases fn with
  | sendOrders barsSent =>
    rw [Sender.returned]
    split
    · split <;> simp
    · simp
  | sendBars => simp [Sender.returned]
  | sendStatus => simp [Sender.returned]
  | sendInfo => simp [Sender.returned]
  | sendTicks => simp [Sender.returned]

theorem act_pc {s : Sender} (h : Live s) (hPc : s.pc ≠ .ended) : (s.act true).pc ≠ .ended := by
  have hUp : (s.canceled || s.aborted) ≠ true := by simp [h.1, h.2]
  rw [Sender.act]
  split
  · rw [if_neg hUp]
    split <;> simp
  · split
    · exact returned_pc _ _ _
    · simp
  · split <;> simp
  · simp
  · exact returned_pc _ _ _
  · rw [if_neg hUp]
    simp [Sender.afterWrite]
  · rename_i hEnded
    exact absurd hEnded hPc

structure Up (s : SendThread.State) : Prop where
  live : Live s.sender
  pc : s.sender.pc ≠ .ended

theorem Up.after {s : SendThread.State} (h : Up s) {a : Action} (hFine : Fine a) : Up (step s a) := by
  refine ⟨live_step h.live hFine, ?_⟩
  have hPc := h.pc
  cases a with
  | publish p =>
    rw [step]
    split <;> exact hPc
  | raise =>
    rw [step]
    split <;> exact hPc
  | send success =>
    obtain rfl : success = true := hFine
    rw [step, State.threadFunc]
    split
    · split
      · exact hPc
      · exact act_pc h.live hPc
    · rw [if_neg (by simp [h.live.1, h.live.2])]
      exact hPc
    · exact hPc
  | wake => exact hPc
  | timeOut => exact hPc
  | cancel => exact absurd hFine id
  | ring =>
    rw [step]
    split <;> exact hPc
  | abort => exact absurd hFine id

/-- From every state the thread gets to sleep, once it has taken up a signal that has reached it. -/
theorem Up.sleeps {s : SendThread.State} (h : Up s) (hInv : Inv s) (hFree : s.raising = false) :
    Leads (step s .wake) Asleep := by
  rw [step]
  rcases hInv.rests with hIdle | hEvent | hEvent
  · have hSame : s.waited s.event.wake = s := waited_of_idle (by rw [Event.State.wake, hIdle])
    have hFlag : s.event = ⟨s.event.signaled, .idle⟩ := by rw [← hIdle]
    rw [hSame]
    cases hStage : s.stage with
    | sending =>
      have hAt : At s.event.signaled s.sender.pc (pendingCount s.sender.ctx) s :=
        ⟨hStage, hFree, h.live, hFlag, rfl, le_rfl⟩
      exact hAt.sleeps h.pc
    | testing =>
      have hPc : s.sender.pc = .loop := hInv.atLoop (by simp [hStage])
      have hWaiting : Waiting s.event.signaled (pendingCount s.sender.ctx) (step s (.send true)) := by
        rw [step, State.threadFunc, hStage]
        simp only [h.live.1, h.live.2, Bool.or_self, Bool.false_eq_true, if_false]
        exact ⟨rfl, hFree, h.live, hFlag, hPc, le_rfl⟩
      exact .turn hWaiting.sleeps
    | waiting =>
      have hPc : s.sender.pc = .loop := hInv.atLoop (by simp [hStage])
      have hWaiting : Waiting s.event.signaled (pendingCount s.sender.ctx) s :=
        ⟨hStage, hFree, h.live, hFlag, hPc, le_rfl⟩
      exact hWaiting.sleeps
  · refine .here ⟨?_, hFree⟩
    rw [hEvent]
    rfl
  · have hPc : s.sender.pc = .loop := by
      apply hInv.atLoop
      rw [hInv.waiting (by simp [hEvent])]
      simp
    have hLoop : At true .loop (pendingCount s.sender.ctx) (s.waited s.event.wake) := by
      rw [hEvent]
      exact ⟨rfl, hFree, h.live, rfl, hPc, le_rfl⟩
    exact hLoop.loop_sleeps

theorem total_turns {M : Type*} [AddCommMonoid M] (amount : Context → Published → M)
    (s : SendThread.State) (n : ℕ) : total step (accepted amount) s (turns n) = 0 := by
  induction n generalizing s with
  | zero => rfl
  | succ n ih => exact (zero_add _).trans (ih _)

theorem fine_wake_turns (n : ℕ) : ∀ a ∈ Action.wake :: turns n, Fine a := by
  intro a ha
  rcases List.mem_cons.mp ha with rfl | hTurn
  · trivial
  · rw [List.eq_of_mem_replicate hTurn]
    rfl

theorem exists_asleep (ctx : Context) (signaled raising : Bool) {actions : List Action}
    (hFine : ∀ a ∈ actions, Fine a)
    (hFree : (run step (start ctx signaled raising) actions).raising = false) :
    ∃ n, Asleep (run step (start ctx signaled raising) (actions ++ .wake :: turns n)) := by
  have hStart : Up (start ctx signaled raising) := ⟨⟨rfl, rfl⟩, by simp [start]⟩
  have hUp : Up (run step (start ctx signaled raising) actions) :=
    run_invariant_of_mem Up hStart fun _ hUp a ha => hUp.after (hFine a ha)
  obtain ⟨later, hTurns, hAsleep⟩ :=
    hUp.sleeps (inv_run ctx signaled raising (always_of_fine hFine)) hFree
  obtain ⟨n, rfl⟩ : ∃ n, later = turns n := ⟨later.length, List.eq_replicate_of_mem hTurns⟩
  refine ⟨n, ?_⟩
  rwa [run_append, run_cons]

/-- Left to itself, from whatever state a run has led to, the thread puts on the socket each bar and
each order event that has been accepted and is not there yet, and then sleeps. -/
theorem drains (ctx : Context) (signaled raising : Bool) (actions : List Action)
    (hFine : ∀ a ∈ actions, Fine a) :
    let s := run step (start ctx signaled raising) actions
    s.raising = false → ∃ n,
      let t := run step s (.wake :: turns n)
      t.event.waiter = .blocked true ∧
        sentOf barsOf t.sender.stream = ctx.allBars +
          total step (accepted barsIn) (start ctx signaled raising) actions ∧
        sentOf ordersOf t.sender.stream = ctx.allOrders +
          total step (accepted ordersIn) (start ctx signaled raising) actions := by
  intro s hFree
  obtain ⟨n, hBlocked, hStill⟩ := exists_asleep ctx signaled raising hFine hFree
  have hAll : ∀ a ∈ actions ++ .wake :: turns n, Fine a := by
    intro a ha
    rcases List.mem_append.mp ha with hBefore | hAfter
    · exact hFine a hBefore
    · exact fine_wake_turns n a hAfter
  have hRun : run step s (.wake :: turns n) =
      run step (start ctx signaled raising) (actions ++ .wake :: turns n) := (run_append _ _ _).symm
  obtain ⟨hLoop, hBars, hOrders⟩ := asleep_holds_nothing hAll hBlocked hStill
  have hTotal : ∀ {M : Type} [AddCommMonoid M] (amount : Context → Published → M),
      total step (accepted amount) (start ctx signaled raising) (actions ++ .wake :: turns n) =
        total step (accepted amount) (start ctx signaled raising) actions := by
    intro M _ amount
    rw [total_append, total_cons, total_turns, add_zero]
    exact add_zero _
  refine ⟨n, ?_⟩
  rw [hRun]
  refine ⟨hBlocked, ?_, ?_⟩
  · rw [barAccount.sent_eq allBars_add hAll hLoop hBars, hTotal]
  · rw [orderAccount.sent_eq allOrders_add hAll hLoop hOrders, hTotal]

theorem bar_drains :
    let s := run step (start {} false false) [.publish (.bar .eurusd 60 ⟨1, 1, 1, 1, 60⟩), .raise]
    ∃ n,
      let t := run step s (.wake :: turns n)
      t.event.waiter = .blocked true ∧
        sentOf barsOf t.sender.stream = Context.allBars {} + total step (accepted barsIn)
          (start {} false false) [.publish (.bar .eurusd 60 ⟨1, 1, 1, 1, 60⟩), .raise] ∧
        sentOf ordersOf t.sender.stream = Context.allOrders {} + total step (accepted ordersIn)
          (start {} false false) [.publish (.bar .eurusd 60 ⟨1, 1, 1, 1, 60⟩), .raise] :=
  drains {} false false [.publish (.bar .eurusd 60 ⟨1, 1, 1, 1, 60⟩), .raise] (by simp [Fine])
    (by decide +kernel)

end Fxquant.Gui.Delivery
