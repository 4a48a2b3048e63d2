import Fxquant.Common.Event
import Fxquant.Library.Wakeups
import Mathlib.Data.List.Nodup
import Mathlib.Data.List.Range
import Mathlib.Logic.Function.Basic

/-!
# The list of contexts and its cleanup

`server_thread` and `cleanup_thread` of `gui_server.cpp`, `set_aborted` of `gui_context.cpp` as
called by the two threads of each context, and the destructor. The cleanup thread holds
`list_lock_` while it copies the list, and asks one context after the other whether it is
aborted, while the contexts go on.
-/

namespace Fxquant.Gui.Cleanup

open Runs Wakeups

/-- The threads of a context. -/
inductive Thread where
  | send | recv
  deriving DecidableEq

/-- Where a thread is in `set_aborted`: outside, past the test of `aborted_`, or with `aborted_` set
and `on_abort_` still to call. -/
inductive Caller where
  | outside | tested | set
  deriving DecidableEq

structure Client where
  aborted : Bool := false
  caller : Thread → Caller := fun _ => .outside

def Client.move (c : Client) (thread : Thread) (caller : Caller) : Client :=
  { c with caller := Function.update c.caller thread caller }

/-- `woken` is the second test of `shutdown_`, `scanning` the loop over `context_list_`, with the
contexts that it has still to read and `tmp_list`. -/
inductive Pc where
  | loop
  | waiting
  | woken
  | locking
  | scanning (unread tmp : List ℕ)
  | ended
  deriving DecidableEq

/-- Contexts are numbered as they are accepted; `ringing` is the destructor before its signal. -/
structure State where
  clients : ℕ → Client := fun _ => {}
  accepted : ℕ := 0
  contexts : List ℕ := []
  event : Event.State := {}
  shutdown : Bool := false
  ringing : Bool := false
  pc : Pc := .loop

inductive Action where
  | accept
  | test (p : ℕ) (thread : Thread)
  | set (p : ℕ) (thread : Thread)
  | notify (p : ℕ) (thread : Thread)
  | cleanup
  | wake
  | shutDown
  | ring

namespace State

variable (s : State)

def setClient (p : ℕ) (c : Client) : State := { s with clients := Function.update s.clients p c }

/-- The list after the loop, as far as it is known. -/
def kept : List ℕ :=
  match s.pc with
  | .scanning unread tmp => tmp ++ unread
  | _ => s.contexts

def scans : Bool :=
  match s.pc with
  | .scanning _ _ => true
  | _ => false

def waited (r : Event.State × Option Bool) : State :=
  { s with event := r.1, pc := if r.2.isSome then .woken else s.pc }

def cleanupThread : State :=
  match s.pc with
  | .loop => if s.shutdown then { s with pc := .ended } else { s with pc := .waiting }
  | .waiting => s.waited (s.event.wait false)
  | .woken => if s.shutdown then { s with pc := .ended } else { s with pc := .locking }
  | .locking => { s with pc := .scanning s.contexts [] }
  | .scanning (p :: unread) tmp =>
    { s with pc := .scanning unread (if (s.clients p).aborted then tmp else tmp ++ [p]) }
  | .scanning [] tmp =>
    { s with
      contexts := if tmp.length ≠ s.contexts.length then tmp else s.contexts
      pc := .loop }
  | .ended => s

end State

def step (s : State) : Action → State
  | .accept =>
    if s.scans then s
    else { s with contexts := s.contexts ++ [s.accepted], accepted := s.accepted + 1 }
  | .test p thread =>
    if p < s.accepted ∧ (s.clients p).caller thread = .outside ∧ (s.clients p).aborted = false then
      s.setClient p ((s.clients p).move thread .tested)
    else s
  | .set p thread =>
    if (s.clients p).caller thread = .tested then
      s.setClient p { (s.clients p).move thread .set with aborted := true }
    else s
  | .notify p thread =>
    if (s.clients p).caller thread = .set then
      { s.setClient p ((s.clients p).move thread .outside) with event := s.event.signal }
    else s
  | .cleanup => s.cleanupThread
  | .wake => s.waited s.event.wake
  | .shutDown => if s.shutdown then s else { s with shutdown := true, ringing := true }
  | .ring => if s.ringing then { s with event := s.event.signal, ringing := false } else s

/-! ### The invariant -/

/-- What the cleanup thread is woken for. -/
inductive Kind where
  | aborted (p : ℕ)
  | shutdown

/-- The thread has looked for an aborted context when it has read it since the list was locked. -/
def hasRead (p : ℕ) : Pc → Prop
  | .loop => True
  | .waiting => True
  | .scanning unread _ => p ∉ unread
  | _ => False

def bell : Kind → Bell State
  | .aborted p => {
      work := fun s => p ∈ s.kept ∧ (s.clients p).aborted = true
      raising := fun s => ∃ thread, (s.clients p).caller thread = .set
      flag := fun s => s.event.signaled = true
      looked := fun s => hasRead p s.pc }
  | .shutdown => {
      work := fun s => s.shutdown = true
      raising := fun s => s.ringing = true
      flag := fun s => s.event.signaled = true
      looked := fun s => s.pc = .waiting }

structure Inv (s : State) : Prop where
  rests : s.event.Rests false
  waiting : s.event.waiter ≠ .idle → s.pc = .waiting
  fresh : ∀ p, s.accepted ≤ p → s.clients p = {}
  sublist : s.contexts.Sublist (List.range s.accepted)
  kept : s.kept.Sublist s.contexts
  dropped : ∀ p < s.accepted, p ∉ s.kept → (s.clients p).aborted = true
  announced : ∀ kind, (bell kind).Announced s

theorem inv_init : Inv {} where
  rests := .inl rfl
  waiting h := absurd rfl h
  fresh _ _ := rfl
  sublist := .refl _
  kept := .refl _
  dropped p h := absurd h (Nat.not_lt_zero p)
  announced kind := by
    intro hLooked hWork
    cases kind with
    | aborted p => cases hWork.1
    | shutdown => cases hLooked

theorem kept_of_not_scans {s : State} (h : s.scans = false) : s.kept = s.contexts := by
  cases hPc : s.pc with
  | scanning unread tmp => simp [State.scans, hPc] at h
  | loop => rw [State.kept, hPc]
  | waiting => rw [State.kept, hPc]
  | woken => rw [State.kept, hPc]
  | locking => rw [State.kept, hPc]
  | ended => rw [State.kept, hPc]

theorem kept_of_scanning {s : State} {unread tmp : List ℕ} (hPc : s.pc = .scanning unread tmp) :
    s.kept = tmp ++ unread := by
  rw [State.kept, hPc]

theorem kept_of_pc {s s' : State} (hPc : s'.pc = s.pc) (hContexts : s'.contexts = s.contexts) :
    s'.kept = s.kept := by
  rw [State.kept, State.kept, hPc, hContexts]

/-! ### One step -/

theorem Inv.accept {s : State} (h : Inv s) (hFree : s.scans = false) :
    Inv { s with contexts := s.contexts ++ [s.accepted], accepted := s.accepted + 1 } := by
  have hKept := kept_of_not_scans hFree
  have hKept' : State.kept
      { s with contexts := s.contexts ++ [s.accepted], accepted := s.accepted + 1 } =
        s.contexts ++ [s.accepted] := kept_of_not_scans hFree
  constructor
  case rests => exact h.rests
  case waiting => exact h.waiting
  case fresh => exact fun p hId => h.fresh p (Nat.le_of_succ_le hId)
  case sublist =>
    rw [List.range_succ]
    exact h.sublist.append_right [s.accepted]
  case kept =>
    rw [hKept']
  case dropped =>
    intro p hId hNot
    rw [hKept', List.mem_append, not_or] at hNot
    have hOld : p ≠ s.accepted := fun hNew => hNot.2 (List.mem_singleton.mpr hNew)
    apply h.dropped p ((Nat.le_of_lt_succ hId).lt_of_ne hOld)
    rw [hKept]
    exact hNot.1
  case announced =>
    intro kind
    apply (h.announced kind).move
    cases kind with
    | shutdown => exact .keep id id id id
    | aborted p =>
      by_cases hNew : p = s.accepted
      · apply Bell.Move.look
        rintro ⟨_, hAborted⟩
        rw [h.fresh p hNew.ge] at hAborted
        cases hAborted
      · refine .keep ?_ (fun hRaising => hRaising) (fun hFlag => hFlag) fun hLooked => hLooked
        rintro ⟨hMem, hAborted⟩
        refine ⟨?_, hAborted⟩
        rw [hKept', List.mem_append] at hMem
        rw [hKept]
        exact hMem.resolve_right fun hHere => hNew (List.mem_singleton.mp hHere)

/-- A step that leaves the list, the cleanup thread and the server alone, and aborts nothing back. -/
theorem Inv.client {s s' : State} (h : Inv s) (hAccepted : s'.accepted = s.accepted)
    (hContexts : s'.contexts = s.contexts) (hPc : s'.pc = s.pc)
    (hEvent : s'.event = s.event ∨ s'.event = s.event.signal)
    (hFresh : ∀ p, s.accepted ≤ p → s'.clients p = s.clients p)
    (hAborted : ∀ p, (s.clients p).aborted = true → (s'.clients p).aborted = true)
    (hMove : ∀ kind, (bell kind).Move s s') : Inv s' where
  rests := by
    rcases hEvent with hSame | hSignal
    · rw [hSame]
      exact h.rests
    · rw [hSignal]
      exact h.rests.signal
  waiting hBusy := by
    rw [hPc]
    apply h.waiting
    intro hIdle
    rcases hEvent with hSame | hSignal
    · exact hBusy (hSame ▸ hIdle)
    · rw [hSignal, Event.State.signal, hIdle] at hBusy
      exact hBusy rfl
  fresh p hId := (hFresh p (hAccepted ▸ hId)).trans (h.fresh p (hAccepted ▸ hId))
  sublist := by
    rw [hContexts, hAccepted]
    exact h.sublist
  kept := by
    rw [kept_of_pc hPc hContexts, hContexts]
    exact h.kept
  dropped p hId hNot := by
    rw [kept_of_pc hPc hContexts] at hNot
    exact hAborted p (h.dropped p (hAccepted ▸ hId) hNot)
  announced kind := (h.announced kind).move (hMove kind)

/-- A thread inside `set_aborted` belongs to a context that was accepted. -/
theorem Inv.lt_of_inside {s : State} (h : Inv s) {p : ℕ} (thread : Thread)
    (hInside : (s.clients p).caller thread ≠ .outside) : p < s.accepted := by
  by_contra hNot
  rw [h.fresh p (Nat.le_of_not_lt hNot)] at hInside
  exact hInside rfl

theorem clients_setClient_of_ne {s : State} {p p' : ℕ} (c : Client) (h : p' ≠ p) :
    (s.setClient p c).clients p' = s.clients p' := by
  rw [State.setClient]
  exact Function.update_of_ne h _ _

@[simp] theorem clients_setClient_self (s : State) (p : ℕ) (c : Client) :
    (s.setClient p c).clients p = c := by
  rw [State.setClient]
  exact Function.update_self _ _ _

theorem Inv.test {s : State} (h : Inv s) {p : ℕ} {thread : Thread} (hLt : p < s.accepted)
    (hOutside : (s.clients p).caller thread = .outside) :
    Inv (s.setClient p ((s.clients p).move thread .tested)) := by
  have hAborted : ∀ p', ((s.setClient p ((s.clients p).move thread .tested)).clients p').aborted =
      (s.clients p').aborted := by
    intro p'
    by_cases hSame : p' = p
    · rw [hSame, clients_setClient_self]
      rfl
    · rw [clients_setClient_of_ne _ hSame]
  apply h.client
  case hAccepted => rfl
  case hContexts => rfl
  case hPc => rfl
  case hEvent => exact .inl rfl
  case hFresh => exact fun p' hId => clients_setClient_of_ne _ (by omega)
  case hAborted => exact fun p' hSet => (hAborted p').trans hSet
  case hMove =>
    intro kind
    cases kind with
    | shutdown => exact .keep id id id id
    | aborted p' =>
      refine .keep ?_ ?_ (fun hFlag => hFlag) fun hLooked => hLooked
      · rintro ⟨hMem, hSet⟩
        exact ⟨hMem, (hAborted p').symm.trans hSet⟩
      · rintro ⟨thread', hInside⟩
        refine ⟨thread', ?_⟩
        by_cases hSame : p' = p
        · subst hSame
          have hOther : thread' ≠ thread := by
            rintro rfl
            rw [hOutside] at hInside
            cases hInside
          rw [clients_setClient_self, Client.move]
          exact (Function.update_of_ne hOther _ _).trans hInside
        · rw [clients_setClient_of_ne _ hSame]
          exact hInside

theorem Inv.set {s : State} (h : Inv s) {p : ℕ} {thread : Thread}
    (hTested : (s.clients p).caller thread = .tested) :
    Inv (s.setClient p { (s.clients p).move thread .set with aborted := true }) := by
  have hLt : p < s.accepted := h.lt_of_inside thread (by simp [hTested])
  apply h.client
  case hAccepted => rfl
  case hContexts => rfl
  case hPc => rfl
  case hEvent => exact .inl rfl
  case hFresh => exact fun p' hId => clients_setClient_of_ne _ (by omega)
  case hAborted =>
    intro p' hSet
    by_cases hSame : p' = p
    · rw [hSame, clients_setClient_self]
    · rwa [clients_setClient_of_ne _ hSame]
  case hMove =>
    intro kind
    cases kind with
    | shutdown => exact .keep id id id id
    | aborted p' =>
      by_cases hSame : p' = p
      · subst hSame
        refine .add ⟨thread, ?_⟩
        rw [clients_setClient_self]
        exact Function.update_self thread _ _
      · refine .keep ?_ ?_ (fun hFlag => hFlag) fun hLooked => hLooked
        · rintro ⟨hMem, hSet⟩
          rw [clients_setClient_of_ne _ hSame] at hSet
          exact ⟨hMem, hSet⟩
        · rintro ⟨thread', hInside⟩
          refine ⟨thread', ?_⟩
          rw [clients_setClient_of_ne _ hSame]
          exact hInside

theorem Inv.notify {s : State} (h : Inv s) {p : ℕ} {thread : Thread}
    (hSet : (s.clients p).caller thread = .set) :
    Inv { s.setClient p ((s.clients p).move thread .outside) with event := s.event.signal } := by
  have hLt : p < s.accepted := h.lt_of_inside thread (by simp [hSet])
  apply h.client
  case hAccepted => rfl
  case hContexts => rfl
  case hPc => rfl
  case hEvent => exact .inr rfl
  case hFresh => exact fun p' hId => clients_setClient_of_ne _ (by omega)
  case hAborted =>
    intro p' hAborted
    by_cases hSame : p' = p
    · rw [hSame] at hAborted ⊢
      change (((s.setClient p ((s.clients p).move thread .outside)).clients p)).aborted = true
      rw [clients_setClient_self]
      exact hAborted
    · exact (congrArg Client.aborted (clients_setClient_of_ne _ hSame)).trans hAborted
  case hMove =>
    intro kind
    cases kind with
    | shutdown => exact .raise rfl
    | aborted p' => exact .raise rfl

/-- A turn of the cleanup thread that leaves the list, and the thread, outside of the loop over it. -/
theorem Inv.turn {s : State} (h : Inv s) {event : Event.State} {pc : Pc} (hRests : event.Rests false)
    (hBusy : event.waiter ≠ .idle → pc = .waiting) (hFree : s.scans = false)
    (hFree' : State.scans { s with event := event, pc := pc } = false)
    (hMove : ∀ kind, (bell kind).Move s { s with event := event, pc := pc }) :
    Inv { s with event := event, pc := pc } where
  rests := hRests
  waiting := hBusy
  fresh := h.fresh
  sublist := h.sublist
  kept := by
    rw [kept_of_not_scans hFree']
  dropped p hId hNot := by
    rw [kept_of_not_scans hFree', ← kept_of_not_scans hFree] at hNot
    exact h.dropped p hId hNot
  announced kind := (h.announced kind).move (hMove kind)

theorem Inv.waited {s : State} (h : Inv s) (hPc : s.pc = .waiting) {r : Event.State × Option Bool}
    (hTurn : Event.Turn false s.event r) : Inv (s.waited r) := by
  have hFree : s.scans = false := by rw [State.scans, hPc]
  cases hReturned : r.2.isSome with
  | true =>
    have hState : s.waited r = { s with event := r.1, pc := .woken } := by
      rw [State.waited, hReturned, if_pos rfl]
    rw [hState]
    apply h.turn hTurn.rests _ hFree rfl
    · intro kind
      cases kind with
      | aborted p => exact .leave fun hRead => hRead
      | shutdown => exact .leave (by simp [bell])
    · exact fun hBusy => absurd (hTurn.idle hReturned) hBusy
  | false =>
    have hState : s.waited r = { s with event := r.1, pc := .waiting } := by
      rw [State.waited, hReturned, hPc]
      rfl
    have hFlag : s.event.signaled = true → r.1.signaled = true := fun hSet =>
      (hTurn.kept hReturned).trans hSet
    rw [hState]
    apply h.turn hTurn.rests _ hFree rfl
    · intro kind
      cases kind with
      | aborted p =>
        refine .keep ?_ (fun hRaising => hRaising) hFlag fun _ => ?_
        · rintro ⟨hMem, hAborted⟩
          refine ⟨?_, hAborted⟩
          rwa [kept_of_not_scans hFree]
        · simp only [bell, hPc, hasRead]
      | shutdown => exact .keep id id hFlag fun _ => hPc
    · exact fun _ => rfl

theorem Inv.idle {s : State} (h : Inv s) (hPc : s.pc ≠ .waiting) : s.event.waiter = .idle := by
  by_contra hBusy
  exact hPc (h.waiting hBusy)

/-- The lock is taken, and no context of the list has been read yet. -/
theorem Inv.lock {s : State} (h : Inv s) (hPc : s.pc = .locking) :
    Inv { s with pc := .scanning s.contexts [] } := by
  have hKept : s.kept = s.contexts := kept_of_not_scans (by rw [State.scans, hPc])
  exact {
    rests := h.rests
    waiting := fun hBusy => absurd (h.idle (by simp [hPc])) hBusy
    fresh := h.fresh
    sublist := h.sublist
    kept := .refl _
    dropped := fun p hId hNot => h.dropped p hId (hKept ▸ hNot)
    announced := by
      intro kind
      apply (h.announced kind).move
      cases kind with
      | shutdown => exact .leave (by simp [bell])
      | aborted p =>
        by_cases hMem : p ∈ s.contexts
        · exact .leave fun hLooked => hLooked hMem
        · exact .look fun hWork => hMem hWork.1 }

/-- One context is asked whether it is aborted. -/
theorem Inv.read {s : State} (h : Inv s) {p : ℕ} {unread tmp : List ℕ}
    (hPc : s.pc = .scanning (p :: unread) tmp) :
    Inv { s with pc := .scanning unread (if (s.clients p).aborted then tmp else tmp ++ [p]) } := by
  have hKept : s.kept = tmp ++ p :: unread := kept_of_scanning hPc
  have hNodup : (tmp ++ p :: unread).Nodup :=
    hKept ▸ (h.kept.trans h.sublist).nodup List.nodup_range
  have hLeft : ((if (s.clients p).aborted then tmp else tmp ++ [p]) ++ unread).Sublist s.kept := by
    rw [hKept]
    split
    · exact (List.sublist_cons_self p unread).append_left tmp
    · rw [List.append_assoc]
      exact .refl _
  have hOther : ∀ p', p' ∈ s.kept → p' ≠ p →
      p' ∈ (if (s.clients p).aborted then tmp else tmp ++ [p]) ++ unread := by
    intro p' hMem hNe
    rw [hKept] at hMem
    split
    · simpa [hNe] using hMem
    · simpa using hMem
  constructor
  case rests => exact h.rests
  case waiting => exact fun hBusy => absurd (h.idle (by simp [hPc])) hBusy
  case fresh => exact h.fresh
  case sublist => exact h.sublist
  case kept => exact hLeft.trans h.kept
  case dropped =>
    intro p' hId hNot
    by_cases hSame : p' = p
    · subst hSame
      by_contra hLive
      apply hNot
      rw [kept_of_scanning rfl, if_neg hLive]
      simp
    · exact h.dropped p' hId fun hMem => hNot (hOther p' hMem hSame)
  case announced =>
    intro kind
    apply (h.announced kind).move
    cases kind with
    | shutdown => exact .leave (by simp [bell])
    | aborted p' =>
      by_cases hUnread : p' ∈ unread
      · exact .leave fun hLooked => hLooked hUnread
      by_cases hSame : p' = p
      · subst hSame
        apply Bell.Move.look
        rintro ⟨hMem, hAborted⟩
        rw [kept_of_scanning rfl, if_pos hAborted] at hMem
        exact (List.nodup_cons.mp (List.nodup_middle.mp hNodup)).1 hMem
      · refine .keep ?_ (fun hRaising => hRaising) (fun hFlag => hFlag) fun _ => ?_
        · rintro ⟨hMem, hAborted⟩
          exact ⟨hLeft.subset hMem, hAborted⟩
        · simp [bell, hPc, hasRead, hSame, hUnread]

/-- The list is what the loop has kept, also where no swap was needed. -/
theorem Inv.swap {s : State} (h : Inv s) {tmp : List ℕ} (hPc : s.pc = .scanning [] tmp) :
    Inv { s with
      contexts := if tmp.length ≠ s.contexts.length then tmp else s.contexts
      pc := .loop } := by
  have hKept : s.kept = tmp := (kept_of_scanning hPc).trans (List.append_nil tmp)
  have hTmp : tmp.Sublist s.contexts := hKept ▸ h.kept
  have hSame : (if tmp.length ≠ s.contexts.length then tmp else s.contexts) = tmp := by
    split
    · rfl
    · rename_i hLength
      exact (hTmp.eq_of_length (not_not.mp hLength)).symm
  rw [hSame]
  exact {
    rests := h.rests
    waiting := fun hBusy => absurd (h.idle (by simp [hPc])) hBusy
    fresh := h.fresh
    sublist := hTmp.trans h.sublist
    kept := .refl _
    dropped := fun p hId hNot => h.dropped p hId (hKept ▸ hNot)
    announced := by
      intro kind
      apply (h.announced kind).move
      cases kind with
      | shutdown => exact .leave (by simp [bell])
      | aborted p =>
        refine .keep ?_ (fun hRaising => hRaising) (fun hFlag => hFlag) fun _ => ?_
        · rintro ⟨hMem, hAborted⟩
          exact ⟨hKept ▸ hMem, hAborted⟩
        · simp [bell, hPc, hasRead] }

theorem Inv.cleanup {s : State} (h : Inv s) : Inv s.cleanupThread := by
  have hMove : ∀ pc : Pc, s.scans = false → s.pc ≠ .waiting → (∀ p, ¬ hasRead p pc) → pc ≠ .waiting →
      State.scans { s with pc := pc } = false → Inv { s with pc := pc } := by
    intro pc hFree hAwake hRead hNot hFree'
    apply h.turn h.rests _ hFree hFree'
    · intro kind
      cases kind with
      | aborted p => exact .leave (hRead p)
      | shutdown => exact .leave hNot
    · exact fun hBusy => absurd (h.idle hAwake) hBusy
  cases hPc : s.pc with
  | loop =>
    have hFree : s.scans = false := by rw [State.scans, hPc]
    have hAwake : s.pc ≠ .waiting := by simp [hPc]
    cases hShutdown : s.shutdown with
    | true =>
      have hState : s.cleanupThread = { s with pc := .ended } := by
        simp [State.cleanupThread, hPc, hShutdown]
      rw [hState]
      exact hMove .ended hFree hAwake (fun _ => id) (by simp) rfl
    | false =>
      have hState : s.cleanupThread = { s with pc := .waiting } := by
        simp [State.cleanupThread, hPc, hShutdown]
      rw [hState]
      apply h.turn h.rests (fun _ => rfl) hFree rfl
      intro kind
      cases kind with
      | shutdown => exact .look fun hWork => Bool.noConfusion (hShutdown.symm.trans hWork)
      | aborted p =>
        refine .keep ?_ (fun hRaising => hRaising) (fun hFlag => hFlag) fun _ => ?_
        · rintro ⟨hMem, hAborted⟩
          refine ⟨?_, hAborted⟩
          rwa [kept_of_not_scans hFree]
        · simp only [bell, hPc, hasRead]
  | waiting =>
    have hState : s.cleanupThread = s.waited (s.event.wait false) := by
      simp [State.cleanupThread, hPc]
    rw [hState]
    exact h.waited hPc h.rests.wait
  | woken =>
    have hFree : s.scans = false := by rw [State.scans, hPc]
    have hAwake : s.pc ≠ .waiting := by simp [hPc]
    cases hShutdown : s.shutdown with
    | true =>
      have hState : s.cleanupThread = { s with pc := .ended } := by
        simp [State.cleanupThread, hPc, hShutdown]
      rw [hState]
      exact hMove .ended hFree hAwake (fun _ => id) (by simp) rfl
    | false =>
      have hState : s.cleanupThread = { s with pc := .locking } := by
        simp [State.cleanupThread, hPc, hShutdown]
      rw [hState]
      exact hMove .locking hFree hAwake (fun _ => id) (by simp) rfl
  | locking =>
    have hState : s.cleanupThread = { s with pc := .scanning s.contexts [] } := by
      simp [State.cleanupThread, hPc]
    rw [hState]
    exact h.lock hPc
  | scanning unread tmp =>
    cases unread with
    | nil =>
      have hState : s.cleanupThread = { s with
          contexts := if tmp.length ≠ s.contexts.length then tmp else s.contexts
          pc := .loop } := by
        simp only [State.cleanupThread, hPc]
      rw [hState]
      exact h.swap hPc
    | cons p unread =>
      have hState : s.cleanupThread = { s with
          pc := .scanning unread (if (s.clients p).aborted then tmp else tmp ++ [p]) } := by
        simp only [State.cleanupThread, hPc]
      rw [hState]
      exact h.read hPc
  | ended =>
    have hState : s.cleanupThread = s := by simp [State.cleanupThread, hPc]
    rwa [hState]

theorem Inv.step {s : State} (h : Inv s) (a : Action) : Inv (step s a) := by
  cases a with
  | accept =>
    rw [Cleanup.step]
    split
    · exact h
    · rename_i hFree
      exact h.accept (by simpa using hFree)
  | test p thread =>
    rw [Cleanup.step]
    split
    · rename_i hTest
      exact h.test hTest.1 hTest.2.1
    · exact h
  | set p thread =>
    rw [Cleanup.step]
    split
    · rename_i hTested
      exact h.set hTested
    · exact h
  | notify p thread =>
    rw [Cleanup.step]
    split
    · rename_i hSet
      exact h.notify hSet
    · exact h
  | cleanup => exact h.cleanup
  | wake =>
    by_cases hIdle : s.event.waiter = .idle
    · have hSame : s.waited s.event.wake = s := by
        rw [Event.State.wake, hIdle]
        rfl
      rwa [Cleanup.step, hSame]
    · exact h.waited (h.waiting hIdle) h.rests.wake
  | shutDown =>
    rw [Cleanup.step]
    split
    · exact h
    · have hMove : ∀ kind, (bell kind).Move s { s with shutdown := true, ringing := true } := by
        intro kind
        cases kind with
        | aborted p => exact .keep id id id id
        | shutdown => exact .add rfl
      exact h.client rfl rfl rfl (.inl rfl) (fun _ _ => rfl) (fun _ hAborted => hAborted) hMove
  | ring =>
    rw [Cleanup.step]
    split
    · have hMove : ∀ kind, (bell kind).Move s { s with event := s.event.signal, ringing := false } := by
        intro kind
        cases kind with
        | aborted p => exact .raise rfl
        | shutdown => exact .raise rfl
      exact h.client rfl rfl rfl (.inr rfl) (fun _ _ => rfl) (fun _ hAborted => hAborted) hMove
    · exact h

/-! ### Runs -/

/-- However clients come and fail and the threads interleave: the list has accepted contexts, in
the order in which they came, and all of them that are not aborted; and where the cleanup
thread sleeps and neither a context nor the destructor has still to signal, none of the list
is aborted and the server runs. -/
theorem lists_live (actions : List Action) :
    let s := run step {} actions
    s.contexts.Sublist (List.range s.accepted) ∧
      (∀ p < s.accepted, (s.clients p).aborted = false → p ∈ s.contexts) ∧
      (s.event.waiter = .blocked false → s.ringing = false →
        (∀ p thread, (s.clients p).caller thread ≠ .set) →
          (∀ p ∈ s.contexts, (s.clients p).aborted = false) ∧ s.shutdown = false) := by
  have h : Inv (run step {} actions) := run_invariant Inv (fun _ a h => h.step a) inv_init actions
  refine ⟨h.sublist, fun p hId hLive => ?_, fun hBlocked hStill hOutside => ⟨fun p hMem => ?_, ?_⟩⟩
  · apply h.kept.subset
    by_contra hNot
    rw [h.dropped p hId hNot] at hLive
    cases hLive
  · have hPc := h.waiting (by simp [hBlocked])
    have hUnset := h.rests.unset hBlocked
    have hNone := (h.announced (.aborted p)).idle (by simp [bell, hPc, hasRead]) (by simp [bell, hUnset])
      (by simpa [bell] using hOutside p)
    by_contra hAborted
    refine hNone ⟨?_, by simpa using hAborted⟩
    rwa [kept_of_not_scans (by rw [State.scans, hPc])]
  · have hPc := h.waiting (by simp [hBlocked])
    have hUnset := h.rests.unset hBlocked
    have hNone := (h.announced .shutdown).idle (by simp [bell, hPc]) (by simp [bell, hUnset])
      (by simp [bell, hStill])
    simpa [bell] using hNone

end Fxquant.Gui.Cleanup
