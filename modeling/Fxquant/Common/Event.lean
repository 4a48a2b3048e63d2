import Fxquant.Library.Runs

/-!
# Events

`event.cpp`, with one thread that waits. The two overloads of `wait` take a flag that is set back
when they find it; of those that have blocked, only the one without a timeout does when it wakes.
-/

namespace Fxquant.Event

open Runs

/-- A call that has blocked, with a timeout or not, and whether `notify_all` has reached it. -/
inductive Waiter where
  | idle
  | blocked (timed : Bool)
  | notified (timed : Bool)
  deriving DecidableEq

structure State where
  signaled : Bool := false
  waiter : Waiter := .idle
  deriving DecidableEq

inductive Action where
  | signal
  | wait (timed : Bool)
  | wake
  | timeOut
  deriving DecidableEq

namespace State

variable (s : State)

def signal : State where
  signaled := true
  waiter :=
    match s.waiter with
    | .blocked timed => .notified timed
    | waiter => waiter

/-- A call of either `wait`, up to where it blocks or returns. -/
def wait (timed : Bool) : State × Option Bool :=
  match s.waiter with
  | .idle =>
    if s.signaled then ({ s with signaled := false }, some true)
    else ({ s with waiter := .blocked timed }, none)
  | _ => (s, none)

/-- What follows the return of the condition variable's wait with the mutex held. -/
def wake : State × Option Bool :=
  match s.waiter with
  | .notified true =>
    if s.signaled then ({ s with waiter := .idle }, some true)
    else ({ s with waiter := .blocked true }, none)
  | .notified false => (⟨false, .idle⟩, some true)
  | _ => (s, none)

/-- `wait_until` may answer `timeout` also where a signal came after the time was over. -/
def timeOut : State × Option Bool :=
  match s.waiter with
  | .blocked true => ({ s with waiter := .idle }, some false)
  | .notified true => ({ s with waiter := .idle }, some false)
  | _ => (s, none)

/-- One step, with what the call that it ends returns; a step that is not enabled does nothing. -/
def act : Action → State × Option Bool
  | .signal => (s.signal, none)
  | .wait timed => s.wait timed
  | .wake => s.wake
  | .timeOut => s.timeOut

end State

/-- An event with the calls that were made: of `signal`, and of the waits that have returned true.
`left` says that a timed wait has returned true and left the flag set, and nothing has
happened to the flag since. -/
structure History where
  event : State := {}
  signals : ℕ := 0
  trues : ℕ := 0
  left : Bool := false
  deriving DecidableEq

def step (h : History) (a : Action) : History where
  event := (h.event.act a).1
  signals := if a = .signal then h.signals + 1 else h.signals
  trues := if (h.event.act a).2 = some true then h.trues + 1 else h.trues
  left :=
    match a with
    | .signal => false
    | .wake => if (h.event.act a).2 = some true then (h.event.act a).1.signaled else h.left
    | _ => h.left && (h.event.act a).1.signaled

/-- No wait begins while the flag is left over. -/
def StepOk (h : History) : Action → Prop
  | .wait _ => h.left = false
  | _ => True

/-- Every signal that is not used up shows in the flag, or in a waiter that it has woken. -/
structure Inv (h : History) : Prop where
  trues_le : h.trues ≤ h.signals
  signaled : h.event.signaled = true → h.left = false → h.trues < h.signals
  notified : ∀ timed, h.event.waiter = .notified timed → h.trues < h.signals

theorem inv_init : Inv {} where
  trues_le := le_rfl
  signaled hSet := by cases hSet
  notified _ hWaiter := by cases hWaiter

/-! ### One step -/

variable {h : History}

theorem Inv.signal (hInv : Inv h) : Inv (step h .signal) := by
  have hLe := hInv.trues_le
  constructor
  · exact Nat.le_succ_of_le hLe
  · exact fun _ _ => Nat.lt_succ_of_le hLe
  · exact fun _ _ => Nat.lt_succ_of_le hLe

/-- Without a flag that is set and not left over, and without a waiter to wake, no signal has to be
kept for later. -/
theorem Inv.of_idle (hLe : h.trues ≤ h.signals) (hFlag : h.event.signaled = false ∨ h.left = true)
    (hWaiter : ∀ timed, h.event.waiter ≠ .notified timed) : Inv h where
  trues_le := hLe
  signaled hSet hLeft := by
    obtain hUnset | hOver := hFlag
    · rw [hUnset] at hSet
      contradiction
    · rw [hOver] at hLeft
      contradiction
  notified timed hNotified := absurd hNotified (hWaiter timed)

/-- A wait that finds the flag takes a signal of its own, as the flag is not left over. -/
theorem Inv.wait (hInv : Inv h) (hLeft : h.left = false) (timed : Bool) :
    Inv (step h (.wait timed)) := by
  obtain ⟨hLe, hSignaled, hNotified⟩ := hInv
  obtain ⟨⟨signaled, waiter⟩, signals, trues, left⟩ := h
  obtain rfl : left = false := hLeft
  cases waiter with
  | idle =>
    cases signaled with
    | true =>
      have hLt : trues < signals := hSignaled rfl rfl
      exact Inv.of_idle hLt (.inl rfl) nofun
    | false => exact Inv.of_idle hLe (.inl rfl) nofun
  | blocked timed' => exact ⟨hLe, fun hSet _ => hSignaled hSet rfl, hNotified⟩
  | notified timed' => exact ⟨hLe, fun hSet _ => hSignaled hSet rfl, hNotified⟩

theorem Inv.wake (hInv : Inv h) : Inv (step h .wake) := by
  obtain ⟨hLe, hSignaled, hNotified⟩ := hInv
  obtain ⟨⟨signaled, waiter⟩, signals, trues, left⟩ := h
  cases waiter with
  | idle => exact ⟨hLe, hSignaled, hNotified⟩
  | blocked timed => exact ⟨hLe, hSignaled, hNotified⟩
  | notified timed =>
    have hLt : trues < signals := hNotified timed rfl
    cases timed with
    | false => exact Inv.of_idle hLt (.inl rfl) nofun
    | true =>
      cases signaled with
      | true => exact Inv.of_idle hLt (.inr rfl) nofun
      | false => exact Inv.of_idle hLe (.inl rfl) nofun

theorem Inv.timeOut (hInv : Inv h) : Inv (step h .timeOut) := by
  obtain ⟨hLe, hSignaled, hNotified⟩ := hInv
  obtain ⟨⟨signaled, waiter⟩, signals, trues, left⟩ := h
  have hKept : signaled = true → (left && signaled) = false → trues < signals := by
    intro hSet hLeft
    rw [hSet, Bool.and_true] at hLeft
    exact hSignaled hSet hLeft
  cases waiter with
  | idle => exact ⟨hLe, hKept, hNotified⟩
  | blocked timed =>
    cases timed with
    | true => exact ⟨hLe, hKept, fun _ hWaiter => by cases hWaiter⟩
    | false => exact ⟨hLe, hKept, hNotified⟩
  | notified timed =>
    cases timed with
    | true => exact ⟨hLe, hKept, fun _ hWaiter => by cases hWaiter⟩
    | false => exact ⟨hLe, hKept, hNotified⟩

theorem Inv.step (hInv : Inv h) (a : Action) (hOk : StepOk h a) : Inv (step h a) := by
  cases a with
  | signal => exact hInv.signal
  | wait timed => exact hInv.wait hOk timed
  | wake => exact hInv.wake
  | timeOut => exact hInv.timeOut

/-! ### Runs -/

/-- Where no wait begins with a flag that is left over, no more waits have returned true at any moment
than signals were called. -/
theorem trues_le_signals {actions : List Action} (h : Always step StepOk {} actions) :
    ∀ before, before <+: actions → (run step {} before).trues ≤ (run step {} before).signals := by
  intro before hPrefix
  have hInv : Inv (run step {} before) :=
    run_invariant_of_always Inv (fun _ a hInv hOk => hInv.step a hOk) inv_init (h.of_prefix hPrefix)
  exact hInv.trues_le

theorem one_signal_two_trues :
    ¬ ∀ actions, (run step {} actions).trues ≤ (run step {} actions).signals := by
  intro hAll
  exact absurd (hAll [.wait true, .signal, .wake, .wait false]) (by decide)

theorem signal_before_each_wait :
    (run step {} [.wait true, .signal, .wake, .signal, .wait false, .wait false]).trues ≤
      (run step {} [.wait true, .signal, .wake, .signal, .wait false, .wait false]).signals := by
  have hRun : Always step StepOk {} [.wait true, .signal, .wake, .signal, .wait false, .wait false] :=
    ⟨rfl, trivial, trivial, trivial, rfl, rfl, trivial⟩
  exact trues_le_signals hRun _ List.prefix_rfl

structure Untimed (h : History) : Prop where
  left : h.left = false
  waiter : h.event.waiter = .idle ∨ h.event.waiter = .blocked false ∨
    h.event.waiter = .notified false

theorem Untimed.step {h : History} (hUntimed : Untimed h) {a : Action} (hAct : a ≠ .wait true) :
    Untimed (step h a) := by
  obtain ⟨hLeft, hWaiter⟩ := hUntimed
  obtain ⟨⟨signaled, waiter⟩, signals, trues, left⟩ := h
  obtain rfl : left = false := hLeft
  cases a with
  | signal =>
    obtain rfl | rfl | rfl := hWaiter
    · exact ⟨rfl, .inl rfl⟩
    · exact ⟨rfl, .inr (.inr rfl)⟩
    · exact ⟨rfl, .inr (.inr rfl)⟩
  | wait timed =>
    obtain rfl : timed = false := by
      cases timed with
      | true => exact absurd rfl hAct
      | false => rfl
    obtain rfl | rfl | rfl := hWaiter
    · cases signaled with
      | true => exact ⟨rfl, .inl rfl⟩
      | false => exact ⟨rfl, .inr (.inl rfl)⟩
    · exact ⟨rfl, .inr (.inl rfl)⟩
    · exact ⟨rfl, .inr (.inr rfl)⟩
  | wake =>
    obtain rfl | rfl | rfl := hWaiter
    · exact ⟨rfl, .inl rfl⟩
    · exact ⟨rfl, .inr (.inl rfl)⟩
    · exact ⟨rfl, .inl rfl⟩
  | timeOut =>
    obtain rfl | rfl | rfl := hWaiter
    · exact ⟨rfl, .inl rfl⟩
    · exact ⟨rfl, .inr (.inl rfl)⟩
    · exact ⟨rfl, .inr (.inr rfl)⟩

/-- Without timeouts the flag is never left over. -/
theorem always_of_untimed {actions : List Action} (h : .wait true ∉ actions) :
    Always step StepOk {} actions := by
  apply always_of_invariant Untimed
  · exact ⟨rfl, .inl rfl⟩
  · intro s hUntimed a hMem
    refine ⟨?_, hUntimed.step (ne_of_mem_of_not_mem hMem h)⟩
    cases a with
    | wait timed => exact hUntimed.left
    | signal => trivial
    | wake => trivial
    | timeOut => trivial

/-! ### One thread that always waits in the same way -/

/-- No call is blocked, or one of the given kind: with the flag not set, or reached by a signal. -/
def State.Rests (timed : Bool) (s : State) : Prop :=
  s.waiter = .idle ∨ s = ⟨false, .blocked timed⟩ ∨ s = ⟨true, .notified timed⟩

/-- What a step of the waiting thread leaves, and whether its call has returned. -/
structure Turn (timed : Bool) (s : State) (r : State × Option Bool) : Prop where
  rests : r.1.Rests timed
  idle : r.2.isSome = true → r.1.waiter = .idle
  kept : r.2.isSome = false → r.1.signaled = s.signaled

namespace State.Rests

variable {timed : Bool} {s : State}

theorem signal (h : s.Rests timed) : s.signal.Rests timed := by
  rcases h with hIdle | rfl | rfl
  · left
    rw [State.signal, hIdle]
  · exact .inr (.inr rfl)
  · exact .inr (.inr rfl)

theorem wait (h : s.Rests timed) : Turn timed s (s.wait timed) := by
  rcases h with hIdle | rfl | rfl
  · obtain ⟨signaled, waiter⟩ := s
    obtain rfl : waiter = .idle := hIdle
    cases signaled with
    | true => exact ⟨.inl rfl, fun _ => rfl, by simp [State.wait]⟩
    | false => exact ⟨.inr (.inl rfl), by simp [State.wait], fun _ => rfl⟩
  · exact ⟨.inr (.inl rfl), by simp [State.wait], fun _ => rfl⟩
  · exact ⟨.inr (.inr rfl), by simp [State.wait], fun _ => rfl⟩

theorem wake (h : s.Rests timed) : Turn timed s s.wake := by
  rcases h with hIdle | rfl | rfl
  · rw [State.wake, hIdle]
    exact ⟨.inl hIdle, by simp, fun _ => rfl⟩
  · exact ⟨.inr (.inl rfl), by simp [State.wake], fun _ => rfl⟩
  · cases timed with
    | true => exact ⟨.inl rfl, fun _ => rfl, by simp [State.wake]⟩
    | false => exact ⟨.inl rfl, fun _ => rfl, by simp [State.wake]⟩

theorem timeOut (h : s.Rests timed) : Turn timed s s.timeOut := by
  rcases h with hIdle | rfl | rfl
  · rw [State.timeOut, hIdle]
    exact ⟨.inl hIdle, by simp, fun _ => rfl⟩
  · cases timed with
    | true => exact ⟨.inl rfl, fun _ => rfl, by simp [State.timeOut]⟩
    | false => exact ⟨.inr (.inl rfl), by simp [State.timeOut], fun _ => rfl⟩
  · cases timed with
    | true => exact ⟨.inl rfl, fun _ => rfl, by simp [State.timeOut]⟩
    | false => exact ⟨.inr (.inr rfl), by simp [State.timeOut], fun _ => rfl⟩

/-- A call that is blocked and not reached by a signal has the flag unset. -/
theorem unset (h : s.Rests timed) (hBlocked : s.waiter = .blocked timed) : s.signaled = false := by
  rcases h with hIdle | rfl | rfl
  · rw [hIdle] at hBlocked
    cases hBlocked
  · rfl
  · cases hBlocked

end State.Rests

end Fxquant.Event
