import Fxquant.Common.Event
import Fxquant.Gui.Sending
import Fxquant.Gui.Contents
import Fxquant.Gui.HeldTick
import Fxquant.Library.Wakeups

/-!
# The send thread and its event

`send_thread_func` with the wait at its end, the functions through which the server passes data
on to the context, the destructor and the abort by the receive thread. Whoever passes data on
holds `data_lock_` until it has signalled, which keeps the send thread out of the data, but not
out of its wait.
-/

namespace Fxquant.Gui

open Feeder

/-- What the server passes on to a context that is in its list. -/
inductive Published where
  | bar (sym : Symbol) (timeFrame : ℕ) (bar : BarData)
  | tick (sym : Symbol) (tick : TickData)
  | order (info : OrderInfo)
  | info (sym : Symbol) (xml : String)

namespace Published

def data : Published → Data
  | .bar sym timeFrame b => .addBar sym timeFrame b
  | .tick sym t => .addTick sym t
  | .order o => .addOrder o
  | .info sym xml => .addInfo sym xml

def signals (ctx : Context) : Published → Bool
  | .bar sym timeFrame b => (ctx.addBar sym timeFrame b).2
  | .tick sym t => (ctx.addTick sym t).2
  | .order _ => true
  | .info _ xml => xml != ""

end Published

namespace SendThread

open Runs Wakeups

/-- Sending, or past `send_ticks` at the test of the flags, or at the wait that follows it. -/
inductive Stage where
  | sending | testing | waiting
  deriving DecidableEq

/-- `raising` is a function that has added data and has still to signal. -/
structure State where
  sender : Sender
  event : Event.State
  raising : Bool
  stage : Stage := .sending

/-- The thread after `initialize`, with what that and other threads have left. -/
def start (ctx : Context) (signaled raising : Bool) : State :=
  { sender := { ctx }, event := { signaled }, raising }

inductive Action where
  | publish (p : Published)
  | raise
  | send (success : Bool)
  | wake
  | timeOut
  | cancel
  | ring
  | abort

def Live (s : Sender) : Prop := s.canceled = false ∧ s.aborted = false

instance (s : Sender) : Decidable (Live s) := inferInstanceAs (Decidable (_ ∧ _))

/-- The actions that lock `data_lock_`. -/
def needsLock (s : Sender) : Bool :=
  match s.pc with
  | .loop => !(s.canceled || s.aborted)
  | .takeOrders _ => true
  | .takeInfo => true
  | .takeTicks => true
  | _ => false

def sendsTicks (s : Sender) : Bool :=
  match s.pc with
  | .writing .sendTicks _ => true
  | _ => false

namespace State

variable (s : State)

def waited (r : Event.State × Option Bool) : State :=
  { s with event := r.1, stage := if r.2.isSome then .sending else s.stage }

def threadFunc (success : Bool) : State :=
  match s.stage with
  | .sending =>
    if s.raising && needsLock s.sender then s
    else
      { s with
        sender := s.sender.act success
        stage := if sendsTicks s.sender && (s.sender.act success).pc == .loop
          then .testing else .sending }
  | .testing =>
    if s.sender.canceled || s.sender.aborted then
      { s with sender := { s.sender with pc := .ended }, stage := .sending }
    else { s with stage := .waiting }
  | .waiting => s.waited (s.event.wait true)

end State

def step (s : State) : Action → State
  | .publish p =>
    if s.raising then s
    else
      { s with
        sender := { s.sender with ctx := s.sender.ctx.add p.data }
        raising := p.signals s.sender.ctx }
  | .raise => if s.raising then { s with event := s.event.signal, raising := false } else s
  | .send success => s.threadFunc success
  | .wake => s.waited s.event.wake
  | .timeOut => s.waited s.event.timeOut
  | .cancel => { s with sender := { s.sender with canceled := true } }
  | .ring => if s.sender.canceled then { s with event := s.event.signal } else s
  | .abort => { s with sender := { s.sender with aborted := true } }

/-- No chunk of the records of a bar array fails. -/
def StepOk (s : State) : Action → Prop
  | .send success => s.sender.ChunkHolds success
  | _ => True

/-! ### What an action of the sender leaves -/

def BarsPending (ctx : Context) : Prop := ∃ sym timeFrame, ctx.pendingBars sym timeFrame ≠ []

def OrdersPending (ctx : Context) : Prop := ∃ sym, (ctx.state sym).orders ≠ []

def TicksPending (ctx : Context) : Prop := ∃ sym, (ctx.state sym).ticks ≠ []

/-- The data whose arrival wakes the thread, but for the info messages: of those, one round sends
only the first. -/
inductive Kind where
  | bars | orders | ticks

def Kind.Pending : Kind → Context → Prop
  | .bars => BarsPending
  | .orders => OrdersPending
  | .ticks => TicksPending

/-- Nothing that is kept of the context appears by an action of the sender. -/
def Less (ctx ctx' : Context) : Prop := ∀ kind : Kind, kind.Pending ctx' → kind.Pending ctx

theorem less_of {ctx ctx' : Context} (hBars : BarsPending ctx' → BarsPending ctx)
    (hOrders : OrdersPending ctx' → OrdersPending ctx)
    (hTicks : TicksPending ctx' → TicksPending ctx) : Less ctx ctx'
  | .bars => hBars
  | .orders => hOrders
  | .ticks => hTicks

theorem Less.refl (ctx : Context) : Less ctx ctx := fun _ => id

theorem bars_of_reads {ctx ctx' : Context} (h : ∀ sym, (ctx'.state sym).bars = (ctx.state sym).bars) :
    BarsPending ctx' → BarsPending ctx := by
  rintro ⟨sym, timeFrame, hPending⟩
  refine ⟨sym, timeFrame, ?_⟩
  rwa [Context.pendingBars, h sym] at hPending

theorem orders_of_reads {ctx ctx' : Context}
    (h : ∀ sym, (ctx'.state sym).orders = (ctx.state sym).orders) :
    OrdersPending ctx' → OrdersPending ctx := by
  rintro ⟨sym, hPending⟩
  exact ⟨sym, by rwa [h sym] at hPending⟩

theorem ticks_of_reads {ctx ctx' : Context} (h : ∀ sym, (ctx'.state sym).ticks = (ctx.state sym).ticks) :
    TicksPending ctx' → TicksPending ctx := by
  rintro ⟨sym, hPending⟩
  exact ⟨sym, by rwa [h sym] at hPending⟩

theorem less_takeBars (ctx : Context) : Less ctx ctx.takeBars.2 := by
  apply less_of
  case hBars =>
    intro hPending
    by_contra hNone
    have hEmpty : ∀ sym timeFrame, ctx.pendingBars sym timeFrame = [] := by
      intro sym timeFrame
      by_contra hHere
      exact hNone ⟨sym, timeFrame, hHere⟩
    rw [takeBars_of_none hEmpty] at hPending
    exact hNone hPending
  case hOrders => exact orders_of_reads (ctx.takeBars_reads fun _ _ => rfl)
  case hTicks => exact ticks_of_reads (ctx.takeBars_reads fun _ _ => rfl)

theorem less_takeOrders (ctx : Context) : Less ctx ctx.takeOrders.2 := by
  apply less_of
  case hBars => exact bars_of_reads (ctx.takeFirst_reads fun _ _ => rfl)
  case hOrders =>
    intro hPending
    by_contra hNone
    have hEmpty : ∀ sym, (ctx.state sym).orders = [] := by
      intro sym
      by_contra hHere
      exact hNone ⟨sym, hHere⟩
    rw [Context.takeOrders, ctx.takeFirst_of_none hEmpty] at hPending
    exact hNone hPending
  case hTicks => exact ticks_of_reads (ctx.takeFirst_reads fun _ _ => rfl)

theorem less_takeInfo (ctx : Context) : Less ctx ctx.takeInfo.2 :=
  less_of (bars_of_reads (ctx.takeFirst_reads fun _ _ => rfl))
    (orders_of_reads (ctx.takeFirst_reads fun _ _ => rfl))
    (ticks_of_reads (ctx.takeFirst_reads fun _ _ => rfl))

theorem not_ticksPending_takeTicks (ctx : Context) : ¬ TicksPending ctx.takeTicks.2 := by
  rintro ⟨sym, hPending⟩
  exact hPending (ticks_takeTicks sym ctx)

theorem less_takeTicks (ctx : Context) : Less ctx ctx.takeTicks.2 :=
  less_of (bars_of_reads (ctx.takeTicks_reads fun _ _ => rfl))
    (orders_of_reads (ctx.takeTicks_reads fun _ _ => rfl))
    fun hPending => absurd hPending (not_ticksPending_takeTicks ctx)

/-- How many kinds of data the thread has found none of since it was last at the head of its loop. -/
def passed : Pc → ℕ
  | .takeOrders false => 1
  | .writing (.sendOrders false) _ => 1
  | .takeInfo => 2
  | .writing .sendInfo _ => 2
  | .takeTicks => 2
  | .writing .sendTicks _ => 3
  | _ => 0

def Kind.place : Kind → ℕ
  | .bars => 1
  | .orders => 2
  | .ticks => 3

theorem act_less (s : Sender) (success : Bool) : Less s.ctx (s.act success).ctx := by
  have hReturned : ∀ (t : Sender) (result : Bool) (fn : Fn), (t.returned result fn).ctx = t.ctx := by
    intro t result fn
    obtain ⟨pc, initialized, hEq⟩ := t.returned_eq result fn
    rw [hEq]
  rw [Sender.act]
  split
  · split
    · exact .refl _
    · split
      · exact less_takeBars s.ctx
      · exact less_takeBars s.ctx
  · split
    · rw [hReturned]
      exact less_takeOrders s.ctx
    · exact less_takeOrders s.ctx
  · split
    · exact less_takeInfo s.ctx
    · exact less_takeInfo s.ctx
  · exact less_takeTicks s.ctx
  · rw [hReturned]
    exact .refl _
  · split
    · rw [hReturned]
      exact .refl _
    · unfold Sender.afterWrite
      split
      · exact .refl _
      · split
        · rw [hReturned]
          exact .refl _
        · rw [hReturned]
          exact .refl _
  · exact .refl _

/-! ### Where an action of the sender gets to -/

theorem live_of_returned {s : Sender} {result : Bool} {fn : Fn} (h : Live (s.returned result fn)) :
    Live s := by
  obtain ⟨pc, initialized, hEq⟩ := s.returned_eq result fn
  rwa [hEq] at h

/-- A write that is next succeeds, or fails and ends the connection, or is a chunk of records. -/
theorem afterWrite_cases (s : Sender) (fn : Fn) (w : Write) (left : List Write) (success : Bool) :
    (success = true ∧ s.afterWrite fn w left success =
        { s with stream := s.stream ++ [⟨w, true⟩], pc := .writing fn left }) ∨
      (success = false ∧ ¬ Live (s.afterWrite fn w left success)) ∨
      success = false ∧ ∃ bars, w = .records bars := by
  cases success with
  | true => exact .inl ⟨rfl, rfl⟩
  | false =>
    cases w with
    | message m =>
      refine .inr (.inl ⟨rfl, fun hLive => ?_⟩)
      have hAborted : Live { s with stream := s.stream ++ [⟨.message m, false⟩], aborted := true } :=
        live_of_returned hLive
      exact Bool.noConfusion hAborted.2
    | records bars => exact .inr (.inr ⟨rfl, bars, rfl⟩)

/-- In a run without failing chunks, a function that writes goes on, returns true, or leaves a lost
connection behind. -/
theorem act_writing {s : Sender} {fn : Fn} {left : List Write} (hPc : s.pc = .writing fn left)
    {success : Bool} (hOk : s.ChunkHolds success) :
    (∃ left', (s.act success).pc = .writing fn left') ∨ s.act success = s.returned true fn ∨
      ¬ Live (s.act success) := by
  cases left with
  | nil => exact .inr (.inl (by rw [Sender.act, hPc]))
  | cons w left =>
    by_cases hDown : (s.canceled || s.aborted) = true
    · right
      right
      have hAct : s.act success = s.returned false fn := by simp only [Sender.act, hPc, if_pos hDown]
      rw [hAct]
      intro hLive
      obtain ⟨hCanceled, hAborted⟩ := live_of_returned hLive
      simp [hCanceled, hAborted] at hDown
    · have hAct : s.act success = s.afterWrite fn w left success := by
        simp only [Sender.act, hPc, if_neg hDown]
      rw [hAct]
      rcases afterWrite_cases s fn w left success with ⟨_, hEq⟩ | ⟨_, hLost⟩ | ⟨rfl, bars, rfl⟩
      · rw [hEq]
        exact .inl ⟨left, rfl⟩
      · exact .inr (.inr hLost)
      · exact absurd (by simp only [Sender.nextWrite, hPc, if_neg hDown]) (hOk fn bars left)

theorem returned_sendOrders_pc (s : Sender) (barsSent result : Bool) :
    ((barsSent || result) = true ∧ ((s.returned result (.sendOrders barsSent)).pc = .loop ∨
        (s.returned result (.sendOrders barsSent)).pc = .writing .sendStatus [.message .status])) ∨
      ((barsSent || result) = false ∧
        s.returned result (.sendOrders barsSent) = { s with pc := .takeInfo }) := by
  rw [Sender.returned]
  split
  · rename_i hSent
    refine .inl ⟨hSent, ?_⟩
    split
    · exact .inl rfl
    · exact .inr rfl
  · rename_i hNone
    exact .inr ⟨by simpa using hNone, rfl⟩

theorem act_loop {s : Sender} (hPc : s.pc = .loop) (success : Bool) :
    (¬ Live s ∧ s.act success = { s with pc := .ended }) ∨
      (Live s ∧ s.ctx.takeBars.1.bars = [] ∧
        s.act success = { s with ctx := s.ctx.takeBars.2, pc := .takeOrders false }) ∨
      (Live s ∧ s.ctx.takeBars.1.bars ≠ [] ∧ s.act success = { s with
        ctx := s.ctx.takeBars.2
        taken := s.taken ++ [s.ctx.takeBars.1]
        pc := .writing .sendBars (barWrites s.ctx.takeBars.1) }) := by
  have hLive : (s.canceled || s.aborted) = true ↔ ¬ Live s := by
    rw [Live]
    cases s.canceled <;> cases s.aborted <;> simp
  simp only [Sender.act, hPc]
  split
  · rename_i hDown
    exact .inl ⟨hLive.mp hDown, rfl⟩
  · rename_i hUp
    have hLives : Live s := by
      by_contra hNot
      exact hUp (hLive.mpr hNot)
    split
    · rename_i hNone
      exact .inr (.inl ⟨hLives, hNone, rfl⟩)
    · rename_i hSome
      exact .inr (.inr ⟨hLives, hSome, rfl⟩)

theorem act_takeOrders {s : Sender} {barsSent : Bool} (hPc : s.pc = .takeOrders barsSent)
    (success : Bool) :
    (s.ctx.takeOrders.1 = [] ∧ s.act success =
        Sender.returned { s with ctx := s.ctx.takeOrders.2 } false (.sendOrders barsSent)) ∨
      (s.ctx.takeOrders.1 ≠ [] ∧ s.act success = { s with
        ctx := s.ctx.takeOrders.2
        pc := .writing (.sendOrders barsSent)
          (s.ctx.takeOrders.1.map fun info => .message (.order info)) }) := by
  simp only [Sender.act, hPc]
  split
  · rename_i hNone
    exact .inl ⟨hNone, rfl⟩
  · rename_i hSome
    exact .inr ⟨hSome, rfl⟩

theorem act_takeInfo {s : Sender} (hPc : s.pc = .takeInfo) (success : Bool) :
    s.act success = { s with ctx := s.ctx.takeInfo.2, pc := .takeTicks } ∨
      s.act success = { s with
        ctx := s.ctx.takeInfo.2
        pc := .writing .sendInfo [.message (.info s.ctx.takeInfo.1)] } := by
  simp only [Sender.act, hPc]
  split
  · exact .inl rfl
  · exact .inr rfl

theorem act_takeTicks {s : Sender} (hPc : s.pc = .takeTicks) (success : Bool) :
    s.act success = { s with
      ctx := s.ctx.takeTicks.2
      pc := .writing .sendTicks
        (s.ctx.takeTicks.1.map fun (sym, tick) => .message (.tick sym tick)) } := by
  simp only [Sender.act, hPc]

/-- An action that gets the thread past a kind of data has found none of it, or the connection is
lost. -/
theorem act_passes {s : Sender} {success : Bool} (hOk : s.ChunkHolds success) :
    passed (s.act success).pc ≤ passed s.pc ∨ ¬ Live (s.act success) ∨
      ∃ kind : Kind, kind.place = passed (s.act success).pc ∧ kind.place = passed s.pc + 1 ∧
        ¬ kind.Pending (s.act success).ctx := by
  cases hPc : s.pc with
  | loop =>
    rcases act_loop hPc success with ⟨_, hEq⟩ | ⟨_, hNone, hEq⟩ | ⟨_, _, hEq⟩
    · rw [hEq]
      exact .inl le_rfl
    · rw [hEq]
      refine .inr (.inr ⟨.bars, rfl, rfl, ?_⟩)
      rintro ⟨sym, timeFrame, hPending⟩
      exact hPending (s.ctx.takeBars_eq_nil hNone sym timeFrame)
    · rw [hEq]
      exact .inl le_rfl
  | takeOrders barsSent =>
    rcases act_takeOrders hPc success with ⟨hNone, hEq⟩ | ⟨_, hEq⟩
    · rw [hEq]
      rcases returned_sendOrders_pc { s with ctx := s.ctx.takeOrders.2 } barsSent false with
        ⟨_, hNow | hNow⟩ | ⟨hOnly, hNow⟩
      · rw [hNow]
        exact .inl (Nat.zero_le _)
      · rw [hNow]
        exact .inl (Nat.zero_le _)
      · rw [Bool.or_false] at hOnly
        rw [hNow, hOnly]
        refine .inr (.inr ⟨.orders, rfl, rfl, ?_⟩)
        rintro ⟨sym, hPending⟩
        exact hPending (s.ctx.takeFirst_eq_empty rfl hNone sym)
    · rw [hEq]
      cases barsSent with
      | false => exact .inl le_rfl
      | true => exact .inl le_rfl
  | takeInfo =>
    rcases act_takeInfo hPc success with hEq | hEq
    · rw [hEq]
      exact .inl le_rfl
    · rw [hEq]
      exact .inl le_rfl
  | takeTicks =>
    rw [act_takeTicks hPc]
    exact .inr (.inr ⟨.ticks, rfl, rfl, not_ticksPending_takeTicks s.ctx⟩)
  | writing fn left =>
    rcases act_writing hPc hOk with ⟨left', hNow⟩ | hReturned | hLost
    · left
      rw [hNow]
      cases fn with
      | sendOrders barsSent => cases barsSent <;> exact le_rfl
      | sendBars => exact le_rfl
      | sendStatus => exact le_rfl
      | sendInfo => exact le_rfl
      | sendTicks => exact le_rfl
    · left
      rw [hReturned]
      cases fn with
      | sendOrders barsSent =>
        rcases returned_sendOrders_pc s barsSent true with ⟨_, hNow | hNow⟩ | ⟨hNever, _⟩
        · rw [hNow]
          exact Nat.zero_le _
        · rw [hNow]
          exact Nat.zero_le _
        · rw [Bool.or_true] at hNever
          cases hNever
      | sendBars => exact le_rfl
      | sendStatus => exact le_rfl
      | sendInfo => exact le_rfl
      | sendTicks => exact Nat.zero_le _
    · exact .inr (.inl hLost)
  | ended =>
    have hEq : s.act success = s := by simp only [Sender.act, hPc]
    rw [hEq, hPc]
    exact .inl le_rfl

/-! ### The bells -/

def bell (kind : Kind) : Bell State where
  work s := kind.Pending s.sender.ctx ∧ Live s.sender
  raising s := s.raising = true
  flag s := s.event.signaled = true
  looked s := s.stage ≠ .sending ∨ kind.place ≤ passed s.sender.pc

structure Inv (s : State) : Prop where
  rests : s.event.Rests true
  waiting : s.event.waiter ≠ .idle → s.stage = .waiting
  atLoop : s.stage ≠ .sending → s.sender.pc = .loop
  announced : ∀ kind, (bell kind).Announced s

theorem inv_start (ctx : Context) (signaled raising : Bool) : Inv (start ctx signaled raising) where
  rests := .inl rfl
  waiting hBusy := absurd rfl hBusy
  atLoop hStage := absurd rfl hStage
  announced kind hLooked := by
    rcases hLooked with hStage | hPlace
    · exact absurd rfl hStage
    · cases kind <;> simp [Kind.place, passed, start] at hPlace

theorem act_canceled (s : Sender) (success : Bool) : (s.act success).canceled = s.canceled := by
  have hReturned : ∀ (t : Sender) (result : Bool) (fn : Fn),
      (t.returned result fn).canceled = t.canceled := by
    intro t result fn
    obtain ⟨pc, initialized, hEq⟩ := t.returned_eq result fn
    rw [hEq]
  rw [Sender.act]
  split
  · split
    · rfl
    · split <;> rfl
  · split
    · rw [hReturned]
    · rfl
  · split <;> rfl
  · rfl
  · rw [hReturned]
  · split
    · rw [hReturned]
    · unfold Sender.afterWrite
      split
      · rfl
      · split
        · rw [hReturned]
        · rw [hReturned]
  · rfl

theorem live_act {s : Sender} {success : Bool} (h : Live (s.act success)) : Live s := by
  obtain ⟨hCanceled, hAborted⟩ := h
  refine ⟨(act_canceled s success).symm.trans hCanceled, ?_⟩
  cases hNext : s.nextWrite with
  | none => exact (Sender.act_of_none hNext success).2.symm.trans hAborted
  | some next =>
    obtain ⟨fn, w, left⟩ := next
    exact (Sender.act_of_some hNext success).1

theorem place_injective {kind kind' : Kind} (h : kind.place = kind'.place) : kind = kind' := by
  cases kind <;> cases kind' <;> first | rfl | cases h

theorem place_pos (kind : Kind) : 0 < kind.place := by
  cases kind <;> decide

theorem place_le (kind : Kind) : kind.place ≤ 3 := by
  cases kind <;> decide

theorem passed_of_sendsTicks {s : Sender} (h : sendsTicks s = true) : passed s.pc = 3 := by
  rw [sendsTicks] at h
  split at h
  · rename_i hPc
    rw [hPc]
    rfl
  · cases h

/-- A thread at the head of its loop has looked for nothing. -/
theorem not_looked {s : State} (hStage : s.stage = .sending) (hPc : passed s.sender.pc = 0)
    (kind : Kind) : ¬ (bell kind).looked s := by
  rintro (hLooked | hLooked)
  · exact hLooked hStage
  · exact absurd (hPc ▸ hLooked) (Nat.not_le_of_lt (place_pos kind))

theorem Inv.waited {s : State} (h : Inv s) (hStage : s.stage = .waiting)
    {r : Event.State × Option Bool} (hTurn : Event.Turn true s.event r) : Inv (s.waited r) := by
  have hPc := h.atLoop (by simp [hStage])
  cases hReturned : r.2.isSome with
  | true =>
    have hState : s.waited r = { s with event := r.1, stage := .sending } := by
      rw [State.waited, hReturned, if_pos rfl]
    rw [hState]
    exact {
      rests := hTurn.rests
      waiting := fun hBusy => absurd (hTurn.idle hReturned) hBusy
      atLoop := fun hNot => absurd rfl hNot
      announced := fun kind => (h.announced kind).move
        (.leave (not_looked rfl (by rw [hPc]; rfl) kind)) }
  | false =>
    have hState : s.waited r = { s with event := r.1 } := by
      rw [State.waited, hReturned]
      rfl
    rw [hState]
    exact {
      rests := hTurn.rests
      waiting := fun _ => hStage
      atLoop := h.atLoop
      announced := fun kind => (h.announced kind).move
        (.keep id id (fun hSet => (hTurn.kept hReturned).trans hSet) id) }

/-- An action of the sender moves its bells as they should. -/
theorem move_act {s s' : State} {success : Bool} (hOk : s.sender.ChunkHolds success)
    (hSender : s'.sender = s.sender.act success) (hRaising : s'.raising = s.raising)
    (hEvent : s'.event = s.event)
    (hStage : s'.stage ≠ .sending → s.stage ≠ .sending ∨ passed s.sender.pc = 3) (kind : Kind) :
    (bell kind).Move s s' := by
  have hLess : (bell kind).work s' → (bell kind).work s := by
    rintro ⟨hPending, hLive⟩
    rw [hSender] at hPending hLive
    exact ⟨act_less s.sender success kind hPending, live_act hLive⟩
  have hKeep : ((bell kind).looked s' → (bell kind).looked s) → (bell kind).Move s s' := by
    intro hLooked
    refine .keep hLess ?_ ?_ hLooked
    · exact fun hHeld => hRaising.trans hHeld
    · exact fun hSet => (congrArg Event.State.signaled hEvent).trans hSet
  by_cases hLooked : (bell kind).looked s'
  · rcases hLooked with hRests | hPlace
    · apply hKeep
      intro _
      rcases hStage hRests with hBefore | hTicks
      · exact .inl hBefore
      · exact .inr (hTicks ▸ place_le kind)
    · rw [hSender] at hPlace
      rcases act_passes hOk with hBack | hLost | ⟨kind', hHere, hNext, hNone⟩
      · exact hKeep fun _ => .inr (hPlace.trans hBack)
      · exact .look fun hWork => hLost (hSender ▸ hWork.2)
      · rcases Nat.lt_or_ge (passed s.sender.pc) kind.place with hNew | hOld
        · obtain rfl : kind = kind' := place_injective (by omega)
          exact .look fun hWork => hNone (hSender ▸ hWork.1)
        · exact hKeep fun _ => .inr hOld
  · exact .leave hLooked

theorem Inv.send {s : State} (h : Inv s) {success : Bool}
    (hOk : s.sender.ChunkHolds success) : Inv (s.threadFunc success) := by
  rw [State.threadFunc]
  cases hStage : s.stage with
  | sending =>
    have hIdle : s.event.waiter = .idle := by
      by_contra hBusy
      have hWaiting := h.waiting hBusy
      rw [hStage] at hWaiting
      cases hWaiting
    simp only
    split
    · exact h
    · constructor
      case rests => exact h.rests
      case waiting => exact fun hBusy => absurd hIdle hBusy
      case atLoop =>
        intro hTesting
        by_contra hPc
        exact hTesting (if_neg (by simp [hPc]))
      case announced =>
        intro kind
        apply (h.announced kind).move
        apply move_act hOk
        · rfl
        · rfl
        · rfl
        intro hTesting
        right
        by_contra hPassed
        have hNot : sendsTicks s.sender ≠ true := fun hTicks => hPassed (passed_of_sendsTicks hTicks)
        exact hTesting (if_neg (by simp [hNot]))
  | testing =>
    have hIdle : s.event.waiter = .idle := by
      by_contra hBusy
      have hWaiting := h.waiting hBusy
      rw [hStage] at hWaiting
      cases hWaiting
    simp only
    split
    · exact {
        rests := h.rests
        waiting := fun hBusy => absurd hIdle hBusy
        atLoop := fun hNot => absurd rfl hNot
        announced := fun kind => (h.announced kind).move (.leave (not_looked rfl rfl kind)) }
    · exact {
        rests := h.rests
        waiting := fun _ => rfl
        atLoop := fun _ => h.atLoop (by simp [hStage])
        announced := fun kind => (h.announced kind).move
          (.keep id id id fun _ => .inl (by simp [hStage])) }
  | waiting => exact h.waited hStage h.rests.wait

/-- Data that is passed on without a signal is of no kind that the thread waits for. -/
theorem less_publish {ctx : Context} {p : Published} (h : p.signals ctx = false) :
    Less ctx (ctx.add p.data) := by
  cases p with
  | bar sym timeFrame b =>
    have hSame : ctx.add (.addBar sym timeFrame b) = ctx := by
      rw [Published.signals, Context.addBar] at h
      rw [Context.add, Context.addBar]
      split at h
      · cases h
      · rename_i hOld
        rw [if_neg hOld]
    rw [Published.data, hSame]
    exact .refl ctx
  | tick sym t =>
    have hSame : ctx.add (.addTick sym t) = ctx := by
      rw [Published.signals, Context.addTick] at h
      rw [Context.add, Context.addTick]
      split at h
      · cases h
      · rename_i hOld
        rw [if_neg hOld]
    rw [Published.data, hSame]
    exact .refl ctx
  | order o => cases h
  | info sym xml =>
    have hAdd : ctx.add (Published.info sym xml).data = ctx.update sym fun st => { st with info := xml } :=
      rfl
    rw [hAdd]
    apply less_of
    · exact bars_of_reads (ctx.update_reads (by simp) sym)
    · exact orders_of_reads (ctx.update_reads (by simp) sym)
    · exact ticks_of_reads (ctx.update_reads (by simp) sym)

theorem Inv.publish {s : State} (h : Inv s) (p : Published) : Inv (step s (.publish p)) := by
  rw [step]
  split
  · exact h
  · rename_i hFree
    exact {
      rests := h.rests
      waiting := h.waiting
      atLoop := h.atLoop
      announced := by
        intro kind
        apply (h.announced kind).move
        cases hSignals : p.signals s.sender.ctx with
        | true => exact .add rfl
        | false =>
          have hLess : (bell kind).work { s with
              sender := { s.sender with ctx := s.sender.ctx.add p.data }, raising := false } →
              (bell kind).work s := fun hWork => ⟨less_publish hSignals kind hWork.1, hWork.2⟩
          exact .keep hLess (fun hHeld => absurd hHeld hFree) id id }

theorem Inv.signal {s : State} (h : Inv s) (raising : Bool) :
    Inv { s with event := s.event.signal, raising := raising } where
  rests := h.rests.signal
  waiting hBusy := by
    apply h.waiting
    intro hIdle
    exact hBusy (by rw [Event.State.signal, hIdle])
  atLoop := h.atLoop
  announced kind := (h.announced kind).move (.raise rfl)

/-- The connection is given up. -/
theorem Inv.down {s : State} (h : Inv s) {sender : Sender} (hDown : ¬ Live sender)
    (hPc : sender.pc = s.sender.pc) : Inv { s with sender := sender } where
  rests := h.rests
  waiting := h.waiting
  atLoop hStage := hPc.trans (h.atLoop hStage)
  announced kind := (h.announced kind).move (.look fun hWork => hDown hWork.2)

theorem waited_of_idle {s : State} {r : Event.State × Option Bool} (h : r = (s.event, none)) :
    s.waited r = s := by
  rw [h]
  rfl

theorem Inv.step {s : State} (h : Inv s) (a : Action) (hOk : StepOk s a) : Inv (step s a) := by
  cases a with
  | publish p => exact h.publish p
  | raise =>
    rw [SendThread.step]
    split
    · exact h.signal false
    · exact h
  | send success => exact h.send hOk
  | wake =>
    by_cases hIdle : s.event.waiter = .idle
    · have hSame : s.waited s.event.wake = s := waited_of_idle (by rw [Event.State.wake, hIdle])
      rwa [SendThread.step, hSame]
    · exact h.waited (h.waiting hIdle) h.rests.wake
  | timeOut =>
    by_cases hIdle : s.event.waiter = .idle
    · have hSame : s.waited s.event.timeOut = s :=
        waited_of_idle (by rw [Event.State.timeOut, hIdle])
      rwa [SendThread.step, hSame]
    · exact h.waited (h.waiting hIdle) h.rests.timeOut
  | cancel => exact h.down (by simp [Live]) rfl
  | ring =>
    rw [SendThread.step]
    split
    · exact h.signal s.raising
    · exact h
  | abort => exact h.down (by simp [Live]) rfl

theorem inv_run (ctx : Context) (signaled raising : Bool) {actions : List Action}
    (hRun : Always step StepOk (start ctx signaled raising) actions) :
    Inv (run step (start ctx signaled raising) actions) :=
  run_invariant_of_always Inv (fun _ a h hOk => h.step a hOk) (inv_start ctx signaled raising) hRun

theorem Inv.nothing_pending {s : State} (h : Inv s) (hBlocked : s.event.waiter = .blocked true)
    (hFree : s.raising = false) (hLive : Live s.sender) :
    (∀ sym timeFrame, s.sender.ctx.pendingBars sym timeFrame = []) ∧
      (∀ sym, (s.sender.ctx.state sym).orders = []) ∧
      ∀ sym, (s.sender.ctx.state sym).ticks = [] := by
  have hStage := h.waiting (by simp [hBlocked])
  have hUnset := h.rests.unset hBlocked
  have hNone : ∀ kind : Kind, ¬ kind.Pending s.sender.ctx := fun kind hPending =>
    (h.announced kind).idle (.inl (by simp [hStage])) (by simp [bell, hUnset]) (by simp [bell, hFree])
      ⟨hPending, hLive⟩
  refine ⟨fun sym timeFrame => ?_, fun sym => ?_, fun sym => ?_⟩
  · by_contra hPending
    exact hNone .bars ⟨sym, timeFrame, hPending⟩
  · by_contra hPending
    exact hNone .orders ⟨sym, hPending⟩
  · by_contra hPending
    exact hNone .ticks ⟨sym, hPending⟩

/-- In every run in which no chunk of a bar array fails, a thread that sleeps on a connection that
is up, while nobody has still to signal, has no bars, no order events and no ticks to send. -/
theorem sleeps_on_nothing (ctx : Context) (signaled raising : Bool) (actions : List Action)
    (hRun : Always step StepOk (start ctx signaled raising) actions) :
    let s := run step (start ctx signaled raising) actions
    s.event.waiter = .blocked true → s.raising = false → Live s.sender →
      (∀ sym timeFrame, s.sender.ctx.pendingBars sym timeFrame = []) ∧
        (∀ sym, (s.sender.ctx.state sym).orders = []) ∧
        ∀ sym, (s.sender.ctx.state sym).ticks = [] :=
  (inv_run ctx signaled raising hRun).nothing_pending

/-- A tick is passed on and sent, and two rounds later the thread sleeps. -/
def oneTick : List Action :=
  [.publish (.tick .eurusd ⟨1, 2, 0⟩), .raise] ++ List.replicate 15 (.send true)

theorem sleeps_after_tick :
    let s := run step (start {} false false) oneTick
    (∀ sym timeFrame, s.sender.ctx.pendingBars sym timeFrame = []) ∧
      (∀ sym, (s.sender.ctx.state sym).orders = []) ∧
      ∀ sym, (s.sender.ctx.state sym).ticks = [] :=
  sleeps_on_nothing {} false false oneTick (by simp [oneTick, List.replicate, Always, StepOk,
    Sender.ChunkHolds]) (by decide +kernel) (by decide +kernel) (by decide +kernel)

end SendThread

end Fxquant.Gui
