import Fxquant.Gui.Sending

/-!
# After a broken write

The send thread and the receive thread, which answers a ping, write to one socket, and any write
may fail. A write that sends only a part of its bytes fails too: `tcp_socket::write` returns success
when all of them are sent. A thread tests `aborted_` before it writes, and `send_message` does so
before it takes `send_lock_`; a thread that waits for the lock then writes all the same.
-/

namespace Fxquant.Gui.BrokenWrite

open Runs

/-- `ready` and `pong` say that the send thread and the receive thread have passed their tests of
the flags, and are about to write. -/
structure State where
  sender : Sender := {}
  ready : Bool := false
  pong : Bool := false

inductive Step where
  | send (success : Bool)
  | ping
  | pong (success : Bool)
  | receiveError
  | data (d : Data)
  | cancel

/-- The write that the send thread is about to make. A message aborts the context with `send_lock_`
still held, so the failure and `set_aborted` are one step. -/
def State.write (s : State) (success : Bool) : State :=
  match s.sender.pc with
  | .writing fn (w :: left) =>
    { s with sender := s.sender.afterWrite fn w left success, ready := false }
  | _ => s

def step (s : State) : Step → State
  | .send success =>
    if s.ready then s.write success
    else if s.sender.nextWrite.isSome then { s with ready := true }
    else { s with sender := s.sender.act success }
  | .ping => if s.sender.canceled || s.sender.aborted then s else { s with pong := true }
  | .pong success =>
    if s.pong then
      { s with
        sender := { s.sender with
          stream := s.sender.stream ++ [⟨.message .pong, success⟩]
          aborted := s.sender.aborted || !success }
        pong := false }
    else s
  | .receiveError => { s with sender := { s.sender with aborted := true } }
  | .data d => { s with sender := { s.sender with ctx := s.sender.ctx.add d } }
  | .cancel => { s with sender := { s.sender with canceled := true } }

/-- A write that is not whole is the last one, and the context is aborted. -/
def Ends (s : State) : Prop :=
  ∀ before sent after, s.sender.stream = before ++ sent :: after → sent.whole = false →
    after = [] ∧ s.sender.aborted = true

def Unbroken (s : State) : Prop := ∀ sent ∈ s.sender.stream, sent.whole = true

/-- The send thread is about to write a chunk of the records of `send_bars`. -/
def AtChunk (s : State) : Prop := ∃ fn bars left, s.sender.pc = .writing fn (.records bars :: left)

/-- No thread that is about to write has let a write of the other fail since its test, and no failing
write is a chunk of records, unless an error of the receive thread has aborted the context. -/
def StepOk (s : State) : Step → Prop
  | .send success => s.ready = true →
    Unbroken s ∧ (success = false → AtChunk s → s.sender.aborted = true)
  | .pong _ => s.pong = true → Unbroken s
  | _ => True

/-- The send thread passes its test at a write. -/
def Inv (s : State) : Prop := s.ready = true → ∃ fn w left, s.sender.pc = .writing fn (w :: left)

theorem pc_of_nextWrite {s : Sender} (h : s.nextWrite.isSome = true) :
    ∃ fn w left, s.pc = .writing fn (w :: left) := by
  rw [Sender.nextWrite] at h
  split at h
  · rename_i fn w left hPc
    exact ⟨fn, w, left, hPc⟩
  · cases h

theorem Inv.step {s : State} (h : Inv s) (i : Step) : Inv (step s i) := by
  cases i with
  | send success =>
    rw [BrokenWrite.step]
    split
    · rename_i hReady
      obtain ⟨fn, w, left, hPc⟩ := h hReady
      rw [State.write, hPc]
      exact nofun
    · rename_i hNotReady
      split
      · rename_i hNext
        exact fun _ => pc_of_nextWrite hNext
      · exact fun hReady => absurd hReady hNotReady
  | ping =>
    rw [BrokenWrite.step]
    split <;> exact h
  | pong success =>
    rw [BrokenWrite.step]
    split <;> exact h
  | receiveError => exact h
  | data d => exact h
  | cancel => exact h

/-- A write after the others ends the connection if it is broken, and the others are whole. -/
theorem ends_append_iff {s s' : State} {sent : Sent}
    (h : s'.sender.stream = s.sender.stream ++ [sent]) :
    Ends s' ↔ Unbroken s ∧ (sent.whole = false → s'.sender.aborted = true) := by
  constructor
  · intro hEnds
    constructor
    · intro sent' hMem
      cases hWhole : sent'.whole with
      | true => rfl
      | false =>
        obtain ⟨before, after, hStream⟩ := List.append_of_mem hMem
        have hNow : s'.sender.stream = before ++ sent' :: (after ++ [sent]) := by
          rw [h, hStream, List.append_assoc, List.cons_append]
        exact absurd (hEnds before sent' _ hNow hWhole).1 (by simp)
    · exact fun hWhole => (hEnds s.sender.stream sent [] h hWhole).2
  · rintro ⟨hUnbroken, hLast⟩ before sent' after hSplit hWhole
    rw [h] at hSplit
    cases List.eq_nil_or_concat after with
    | inl hNil =>
      subst hNil
      obtain rfl : sent = sent' := (List.cons.inj (List.append_inj' hSplit rfl).2).1
      exact ⟨rfl, hLast hWhole⟩
    | inr hMore =>
      obtain ⟨after', last, rfl⟩ := hMore
      have hOld : s.sender.stream = before ++ sent' :: after' := by
        rw [List.concat_eq_append, ← List.cons_append, ← List.append_assoc] at hSplit
        exact (List.append_inj' hSplit rfl).1
      have hMem : sent' ∈ s.sender.stream := hOld ▸ List.mem_append_right _ List.mem_cons_self
      rw [hUnbroken sent' hMem] at hWhole
      cases hWhole

/-- A step that writes nothing leaves the connection ended. -/
theorem Ends.of_stream_eq {s s' : State} (h : Ends s) (hStream : s'.sender.stream = s.sender.stream)
    (hAborted : s.sender.aborted = true → s'.sender.aborted = true) : Ends s' := by
  intro before sent after hSplit hWhole
  rw [hStream] at hSplit
  obtain ⟨hLast, hNow⟩ := h before sent after hSplit hWhole
  exact ⟨hLast, hAborted hNow⟩

theorem ends_write_iff {s : State} {fn : Fn} {w : Write} {left : List Write}
    (hPc : s.sender.pc = .writing fn (w :: left)) (success : Bool) :
    Ends (s.write success) ↔
      Unbroken s ∧ (success = false → AtChunk s → s.sender.aborted = true) := by
  obtain ⟨hStream, hAborted⟩ := s.sender.afterWrite_spec fn w left success
  have hWrite : s.write success =
      { s with sender := s.sender.afterWrite fn w left success, ready := false } := by
    rw [State.write, hPc]
  have hChunk : AtChunk s ↔ ∃ bars, w = .records bars := by
    constructor
    · rintro ⟨fn', bars, left', hAt⟩
      rw [hPc] at hAt
      cases hAt
      exact ⟨bars, rfl⟩
    · rintro ⟨bars, rfl⟩
      exact ⟨fn, bars, left, hPc⟩
  rw [hWrite, ends_append_iff (s := s) hStream]
  apply and_congr_right
  intro _
  apply forall_congr'
  intro hFails
  change (s.sender.afterWrite fn w left success).aborted = true ↔ _
  rw [hAborted, hChunk]
  constructor
  · rintro (hUp | ⟨_, hOther⟩) hRecords
    · exact hUp
    · obtain ⟨bars, hEq⟩ := hRecords
      exact absurd hEq (hOther bars)
  · intro hUp
    by_cases hRecords : ∃ bars, w = .records bars
    · exact .inl (hUp hRecords)
    · exact .inr ⟨hFails, not_exists.mp hRecords⟩

theorem ends_step_iff {s : State} (hInv : Inv s) (h : Ends s) (i : Step) :
    Ends (step s i) ↔ StepOk s i := by
  cases i with
  | send success =>
    rw [step, StepOk]
    split
    · rename_i hReady
      obtain ⟨fn, w, left, hPc⟩ := hInv hReady
      rw [ends_write_iff hPc, forall_prop_of_true hReady]
    · rename_i hNotReady
      refine iff_of_true ?_ fun hReady => absurd hReady hNotReady
      split
      · exact h.of_stream_eq rfl id
      · rename_i hNone
        obtain ⟨hStream, hAborted⟩ := Sender.act_of_none (Option.not_isSome_iff_eq_none.mp hNone) success
        exact h.of_stream_eq hStream hAborted.trans
  | ping =>
    rw [step]
    refine iff_of_true ?_ trivial
    split
    · exact h
    · exact h.of_stream_eq rfl id
  | pong success =>
    rw [step, StepOk]
    split
    · rename_i hPong
      rw [forall_prop_of_true hPong, ends_append_iff (s := s) rfl]
      apply and_iff_left
      intro hFails
      simp only at hFails
      simp [hFails]
    · rename_i hNone
      exact iff_of_true h fun hPong => absurd hPong hNone
  | receiveError => exact iff_of_true (h.of_stream_eq rfl fun _ => rfl) trivial
  | data d => exact iff_of_true (h.of_stream_eq rfl id) trivial
  | cancel => exact iff_of_true (h.of_stream_eq rfl id) trivial

def brokenChunk : List Step :=
  [.data (.addBars .eurusd 1 [⟨1, 1, 1, 1, 60⟩, ⟨2, 2, 2, 2, 120⟩]), .data (.addInfo .eurusd "<i/>"),
    .send true, .send true, .send true, .send true, .send false, .send true, .send true, .send true,
    .send true]

/-- The answer to a ping waits for the lock, and follows a message that fails. -/
example :
    (run step {} [.data (.addInfo .eurusd "<i/>"), .send true, .send true, .send true, .send true,
      .ping, .send false, .pong true]).sender.stream =
      [⟨.message (.info "<i/>"), false⟩, ⟨.message .pong, true⟩] := by decide +kernel

end Fxquant.Gui.BrokenWrite
