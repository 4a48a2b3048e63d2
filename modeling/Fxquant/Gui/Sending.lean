import Fxquant.Gui.SendBars
import Fxquant.Library.Runs

/-!
# The send thread

`send_thread_func` after the initialization, one action at a time: a function takes its data under
`data_lock_` and then writes it, each write a call of `tcp_socket::write` that sends all its
bytes or fails. A failed message aborts the context; a failed chunk of a bar array ends
`send_bars`, and the thread goes on.
-/

namespace Fxquant.Gui

open Feeder

/-- The sending functions; `sendOrders` comes with the result of `sendBars`. -/
inductive Fn where
  | sendBars
  | sendOrders (barsSent : Bool)
  | sendStatus
  | sendInfo
  | sendTicks
  deriving DecidableEq

inductive Pc where
  | loop
  | takeOrders (barsSent : Bool)
  | takeInfo
  | takeTicks
  | writing (fn : Fn) (left : List Write)
  | ended
  deriving DecidableEq

/-- A write that has put all its bytes, or only some, or none, on the socket. -/
structure Sent where
  write : Write
  whole : Bool
  deriving DecidableEq

/-- `taken` are the bars that `send_bars` has taken so far. -/
structure Sender where
  ctx : Context := {}
  canceled : Bool := false
  aborted : Bool := false
  initialized : Bool := false
  pc : Pc := .loop
  stream : List Sent := []
  taken : List Taken := []

namespace Sender

/-- Where the thread goes when a sending function returns. -/
def returned (s : Sender) (result : Bool) : Fn → Sender
  | .sendBars => { s with pc := .takeOrders result }
  | .sendOrders barsSent =>
    if barsSent || result then
      if s.initialized then { s with pc := .loop }
      else { s with pc := .writing .sendStatus [.message .status], initialized := true }
    else { s with pc := .takeInfo }
  | .sendStatus => { s with pc := .loop }
  | .sendInfo => { s with pc := .takeTicks }
  | .sendTicks => { s with pc := .loop }

/-- A function that returns moves the thread, and may make the context initialized. -/
theorem returned_eq (s : Sender) (result : Bool) (fn : Fn) :
    ∃ pc initialized, s.returned result fn = { s with pc, initialized } := by
  cases fn with
  | sendOrders barsSent =>
    rw [returned]
    split
    · split
      · exact ⟨.loop, s.initialized, rfl⟩
      · exact ⟨.writing .sendStatus [.message .status], true, rfl⟩
    · exact ⟨.takeInfo, s.initialized, rfl⟩
  | sendBars => exact ⟨.takeOrders result, s.initialized, rfl⟩
  | sendStatus => exact ⟨.loop, s.initialized, rfl⟩
  | sendInfo => exact ⟨.takeTicks, s.initialized, rfl⟩
  | sendTicks => exact ⟨.loop, s.initialized, rfl⟩

/-- What is written next, if anything is left and the connection is up. -/
def nextWrite (s : Sender) : Option (Fn × Write × List Write) :=
  match s.pc with
  | .writing fn (w :: left) => if s.canceled || s.aborted then none else some (fn, w, left)
  | _ => none

/-- `set_aborted` is called for a message, and not for a chunk of records. -/
def afterWrite (s : Sender) (fn : Fn) (w : Write) (left : List Write) (success : Bool) : Sender :=
  if success then { s with stream := s.stream ++ [⟨w, true⟩], pc := .writing fn left }
  else
    match w with
    | .message _ =>
      returned { s with stream := s.stream ++ [⟨w, false⟩], aborted := true } false fn
    | .records _ => returned { s with stream := s.stream ++ [⟨w, false⟩] } false fn

/-- The next action of the send thread; `success` is the outcome of its write, if it writes. -/
def act (s : Sender) (success : Bool) : Sender :=
  match s.pc with
  | .loop =>
    if s.canceled || s.aborted then { s with pc := .ended }
    else if s.ctx.takeBars.1.bars = [] then
      { s with ctx := s.ctx.takeBars.2, pc := .takeOrders false }
    else
      { s with
        ctx := s.ctx.takeBars.2
        taken := s.taken ++ [s.ctx.takeBars.1]
        pc := .writing .sendBars (barWrites s.ctx.takeBars.1) }
  | .takeOrders barsSent =>
    if s.ctx.takeOrders.1 = [] then
      returned { s with ctx := s.ctx.takeOrders.2 } false (.sendOrders barsSent)
    else
      { s with
        ctx := s.ctx.takeOrders.2
        pc := .writing (.sendOrders barsSent)
          (s.ctx.takeOrders.1.map fun info => .message (.order info)) }
  | .takeInfo =>
    if s.ctx.takeInfo.1 = "" then { s with ctx := s.ctx.takeInfo.2, pc := .takeTicks }
    else
      { s with
        ctx := s.ctx.takeInfo.2
        pc := .writing .sendInfo [.message (.info s.ctx.takeInfo.1)] }
  | .takeTicks =>
    { s with
      ctx := s.ctx.takeTicks.2
      pc := .writing .sendTicks
        (s.ctx.takeTicks.1.map fun (sym, tick) => .message (.tick sym tick)) }
  | .writing fn [] => s.returned true fn
  | .writing fn (w :: left) =>
    if s.canceled || s.aborted then s.returned false fn else s.afterWrite fn w left success
  | .ended => s

/-- The outcome of the next action is not that of a chunk of records that fails. -/
def ChunkHolds (s : Sender) : Bool → Prop
  | false => ∀ fn bars left, s.nextWrite ≠ some (fn, .records bars, left)
  | true => True

theorem returned_stream (s : Sender) (result : Bool) (fn : Fn) :
    (s.returned result fn).stream = s.stream ∧ (s.returned result fn).aborted = s.aborted := by
  obtain ⟨pc, initialized, hReturned⟩ := s.returned_eq result fn
  rw [hReturned]
  exact ⟨rfl, rfl⟩

/-- An action that writes nothing. -/
theorem act_of_none {s : Sender} (h : s.nextWrite = none) (success : Bool) :
    (s.act success).stream = s.stream ∧ (s.act success).aborted = s.aborted := by
  rw [Sender.act]
  split
  · split
    · exact ⟨rfl, rfl⟩
    · split <;> exact ⟨rfl, rfl⟩
  · split
    · exact returned_stream _ _ _
    · exact ⟨rfl, rfl⟩
  · split <;> exact ⟨rfl, rfl⟩
  · exact ⟨rfl, rfl⟩
  · exact returned_stream _ _ _
  · rename_i fn w left hPc
    split
    · exact returned_stream _ _ _
    · rename_i hUp
      simp only [Sender.nextWrite, hPc, if_neg hUp] at h
      cases h
  · exact ⟨rfl, rfl⟩

theorem act_of_some {s : Sender} {fn : Fn} {w : Write} {left : List Write}
    (h : s.nextWrite = some (fn, w, left)) (success : Bool) :
    s.aborted = false ∧ s.act success = s.afterWrite fn w left success := by
  rw [Sender.nextWrite] at h
  split at h
  · rename_i fn' w' left' hPc
    split at h
    · cases h
    · rename_i hUp
      cases h
      refine ⟨by simp_all, ?_⟩
      simp only [Sender.act, hPc, if_neg hUp]
  · cases h

/-- A failed write aborts the context unless it is a chunk of records. -/
theorem afterWrite_spec (s : Sender) (fn : Fn) (w : Write) (left : List Write) (success : Bool) :
    (s.afterWrite fn w left success).stream = s.stream ++ [⟨w, success⟩] ∧
      ((s.afterWrite fn w left success).aborted = true ↔
        s.aborted = true ∨ success = false ∧ ∀ bars, w ≠ .records bars) := by
  cases success with
  | true => exact ⟨rfl, by simp [afterWrite]⟩
  | false =>
    cases w with
    | message m =>
      obtain ⟨hStream, hNow⟩ := returned_stream
        { s with stream := s.stream ++ [⟨.message m, false⟩], aborted := true } false fn
      exact ⟨hStream, iff_of_true hNow (.inr ⟨rfl, fun bars => Write.noConfusion⟩)⟩
    | records bars =>
      obtain ⟨hStream, hNow⟩ := returned_stream
        { s with stream := s.stream ++ [⟨.records bars, false⟩] } false fn
      refine ⟨hStream, ?_⟩
      rw [or_iff_left (fun hOther => hOther.2 bars rfl)]
      exact Bool.eq_iff_iff.mp hNow

end Sender

/-- What the other threads do to the data of the context. -/
inductive Data where
  | addBar (sym : Symbol) (timeFrame : ℕ) (bar : BarData)
  | addBars (sym : Symbol) (timeFrame : ℕ) (bars : List BarData)
  | addTick (sym : Symbol) (tick : TickData)
  | addOrder (info : OrderInfo)
  | addOrders (sym : Symbol) (saved : List OrderInfo)
  | addInfo (sym : Symbol) (xml : String)

def Context.add (ctx : Context) : Data → Context
  | .addBar sym timeFrame bar => (ctx.addBar sym timeFrame bar).1
  | .addBars sym timeFrame bars => (ctx.addBars sym timeFrame bars).1
  | .addTick sym tick => (ctx.addTick sym tick).1
  | .addOrder info => ctx.addOrder info
  | .addOrders sym saved => ctx.addOrders sym saved
  | .addInfo sym xml => ctx.addInfo sym xml

end Fxquant.Gui
