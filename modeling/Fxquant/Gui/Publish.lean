import Fxquant.Gui.Cleanup

/-!
# Events for every client

The loops of `on_bar`, `on_tick`, `on_order` and `on_info` of `gui_server.cpp`, over the list of
`Cleanup`. A loop holds `list_lock_`, so that nobody joins and nothing is cleaned up meanwhile, but
the clients fail at any moment, and it asks each of them in its turn. The events are of any type.
-/

namespace Fxquant.Gui.Publish

open Runs

variable {α : Type}

/-- `unvisited` is what the loop of a call has left. `offered` are the events of the calls since a
context was accepted, `added` those that a loop has added to it. -/
structure State (α : Type) where
  server : Cleanup.State := {}
  call : Option α := none
  unvisited : List ℕ := []
  published : List α := []
  offered : ℕ → List α := fun _ => []
  added : ℕ → List α := fun _ => []

inductive Action (α : Type) where
  | server (a : Cleanup.Action)
  | publish (event : α)
  | visit

/-- What waits for `list_lock_`: a client that is accepted, and the cleanup before its loop. -/
def locks (s : Cleanup.State) : Cleanup.Action → Bool
  | .accept => true
  | .cleanup => s.pc = .locking
  | _ => false

def visit (s : State α) : State α :=
  match s.call, s.unvisited with
  | some event, p :: unvisited =>
    { s with
      unvisited
      added := if (s.server.clients p).aborted then s.added
        else Function.update s.added p (s.added p ++ [event]) }
  | some _, [] => { s with call := none }
  | none, _ => s

def step (s : State α) : Action α → State α
  | .server a =>
    if s.call.isSome && locks s.server a then s else { s with server := Cleanup.step s.server a }
  | .publish event =>
    if s.call.isSome || s.server.scans then s
    else { s with
      call := some event
      unvisited := s.server.contexts
      published := s.published ++ [event]
      offered := fun p => if p < s.server.accepted then s.offered p ++ [event] else s.offered p }
  | .visit => visit s

/-- What the loop has still to add to a context. -/
def owed (s : State α) (p : ℕ) : List α := if p ∈ s.unvisited then s.call.toList else []

structure Inv (s : State α) : Prop where
  server : Cleanup.Inv s.server
  busy : s.call = none → s.unvisited = []
  nodup : s.unvisited.Nodup
  accepted : ∀ p ∈ s.unvisited, p < s.server.accepted
  fresh : ∀ p, s.server.accepted ≤ p → s.offered p = [] ∧ s.added p = []
  suffix : ∀ p, s.offered p <:+ s.published
  gapless : ∀ p, s.added p <+: s.offered p
  live : ∀ p, (s.server.clients p).aborted = false → s.added p ++ owed s p = s.offered p

theorem inv_init : Inv ({} : State α) where
  server := Cleanup.inv_init
  busy _ := rfl
  nodup := List.nodup_nil
  accepted _ h := absurd h List.not_mem_nil
  fresh _ _ := ⟨rfl, rfl⟩
  suffix _ := List.suffix_rfl
  gapless _ := List.prefix_rfl
  live _ _ := rfl

/-! ### One step -/

theorem aborted_setClient (s : Cleanup.State) {p : ℕ} {c : Cleanup.Client}
    (h : (s.clients p).aborted = true → c.aborted = true) {q : ℕ}
    (hAborted : (s.clients q).aborted = true) : ((s.setClient p c).clients q).aborted = true := by
  by_cases hSame : q = p
  · subst hSame
    rw [Cleanup.clients_setClient_self]
    exact h hAborted
  · rw [Cleanup.clients_setClient_of_ne _ hSame]
    exact hAborted

theorem cleanupThread_keeps (s : Cleanup.State) :
    s.cleanupThread.accepted = s.accepted ∧ s.cleanupThread.clients = s.clients := by
  rw [Cleanup.State.cleanupThread]
  split
  · split <;> exact ⟨rfl, rfl⟩
  · exact ⟨rfl, rfl⟩
  · split <;> exact ⟨rfl, rfl⟩
  · exact ⟨rfl, rfl⟩
  · exact ⟨rfl, rfl⟩
  · exact ⟨rfl, rfl⟩
  · exact ⟨rfl, rfl⟩

/-- No action of the server takes a client back, or makes one healthy again. -/
theorem step_server (s : Cleanup.State) (a : Cleanup.Action) :
    s.accepted ≤ (Cleanup.step s a).accepted ∧
      ∀ p, (s.clients p).aborted = true → ((Cleanup.step s a).clients p).aborted = true := by
  cases a with
  | accept =>
    rw [Cleanup.step]
    split
    · exact ⟨le_rfl, fun _ h => h⟩
    · exact ⟨Nat.le_succ _, fun _ h => h⟩
  | test p thread =>
    rw [Cleanup.step]
    split
    · exact ⟨le_rfl, fun _ => aborted_setClient s (c := (s.clients p).move thread .tested) fun h => h⟩
    · exact ⟨le_rfl, fun _ h => h⟩
  | set p thread =>
    rw [Cleanup.step]
    split
    · exact ⟨le_rfl, fun _ => aborted_setClient s fun _ => rfl⟩
    · exact ⟨le_rfl, fun _ h => h⟩
  | notify p thread =>
    rw [Cleanup.step]
    split
    · exact ⟨le_rfl, fun _ => aborted_setClient s (c := (s.clients p).move thread .outside) fun h => h⟩
    · exact ⟨le_rfl, fun _ h => h⟩
  | cleanup =>
    obtain ⟨hAccepted, hClients⟩ := cleanupThread_keeps s
    rw [Cleanup.step, hAccepted, hClients]
    exact ⟨le_rfl, fun _ h => h⟩
  | wake => exact ⟨le_rfl, fun _ h => h⟩
  | shutDown =>
    rw [Cleanup.step]
    split <;> exact ⟨le_rfl, fun _ h => h⟩
  | ring =>
    rw [Cleanup.step]
    split <;> exact ⟨le_rfl, fun _ h => h⟩

theorem Inv.ofServer {s : State α} (h : Inv s) (a : Cleanup.Action) :
    Inv { s with server := Cleanup.step s.server a } := by
  obtain ⟨hAccepted, hAborted⟩ := step_server s.server a
  constructor
  case server => exact h.server.step a
  case busy => exact h.busy
  case nodup => exact h.nodup
  case accepted => exact fun p hMem => (h.accepted p hMem).trans_le hAccepted
  case fresh => exact fun p hId => h.fresh p (hAccepted.trans hId)
  case suffix => exact h.suffix
  case gapless => exact h.gapless
  case live =>
    intro p hLive
    apply h.live p
    by_contra hNot
    rw [hAborted p (by simpa using hNot)] at hLive
    cases hLive

theorem Inv.publish {s : State α} (h : Inv s) (hFree : s.call = none) (hScans : s.server.scans = false)
    (event : α) :
    Inv { s with
      call := some event
      unvisited := s.server.contexts
      published := s.published ++ [event]
      offered := fun p => if p < s.server.accepted then s.offered p ++ [event] else s.offered p } := by
  have hKept := Cleanup.kept_of_not_scans hScans
  constructor
  case server => exact h.server
  case busy => exact fun hNone => absurd hNone (by simp)
  case nodup => exact h.server.sublist.nodup List.nodup_range
  case accepted => exact fun p hMem => List.mem_range.mp (h.server.sublist.subset hMem)
  case fresh =>
    intro p hId
    dsimp only
    rw [if_neg (not_lt.mpr hId)]
    exact h.fresh p hId
  case suffix =>
    intro p
    dsimp only
    split
    · exact List.suffix_append_inj_of_length_eq rfl |>.mpr ⟨h.suffix p, rfl⟩
    · rename_i hId
      rw [(h.fresh p (not_lt.mp hId)).1]
      exact List.nil_suffix
  case gapless =>
    intro p
    dsimp only
    split
    · exact (h.gapless p).trans (List.prefix_append _ _)
    · exact h.gapless p
  case live =>
    intro p hLive
    have hBefore := h.live p hLive
    rw [owed, h.busy hFree, if_neg List.not_mem_nil, List.append_nil] at hBefore
    by_cases hId : p < s.server.accepted
    · have hMem : p ∈ s.server.contexts := by
        by_contra hNot
        rw [h.server.dropped p hId (hKept ▸ hNot)] at hLive
        cases hLive
      dsimp only
      rw [owed, if_pos hMem, if_pos hId, hBefore]
      rfl
    · have hNot : p ∉ s.server.contexts := fun hMem =>
        hId (List.mem_range.mp (h.server.sublist.subset hMem))
      dsimp only
      rw [owed, if_neg hNot, if_neg hId, hBefore, List.append_nil]

theorem Inv.visit {s : State α} (h : Inv s) {event : α} {p : ℕ} {unvisited : List ℕ}
    (hCall : s.call = some event) (hUnvisited : s.unvisited = p :: unvisited) :
    Inv { s with
      unvisited
      added := if (s.server.clients p).aborted then s.added
        else Function.update s.added p (s.added p ++ [event]) } := by
  have hNodup := h.nodup
  rw [hUnvisited, List.nodup_cons] at hNodup
  have hHere : p ∈ s.unvisited := by simp [hUnvisited]
  have hSelf : (s.server.clients p).aborted = false → s.added p ++ [event] = s.offered p := by
    intro hLive
    have hOwed := h.live p hLive
    rwa [owed, if_pos hHere, hCall] at hOwed
  have hOwed : ∀ q ≠ p, (if q ∈ unvisited then s.call.toList else []) = owed s q := by
    intro q hOther
    rw [owed, hUnvisited]
    simp [hOther]
  constructor
  case server => exact h.server
  case busy => exact fun hNone => absurd (hCall.symm.trans hNone) (by simp)
  case nodup => exact hNodup.2
  case accepted => exact fun q hMem => h.accepted q (by simp [hUnvisited, hMem])
  case fresh =>
    intro q hId
    have hOther : q ≠ p := by
      rintro rfl
      exact absurd (h.accepted q hHere) (not_lt.mpr hId)
    refine ⟨(h.fresh q hId).1, ?_⟩
    dsimp only
    split
    · exact (h.fresh q hId).2
    · rw [Function.update_of_ne hOther]
      exact (h.fresh q hId).2
  case suffix => exact h.suffix
  case gapless =>
    intro q
    dsimp only
    split
    · exact h.gapless q
    · rename_i hLive
      by_cases hSame : q = p
      · subst hSame
        rw [Function.update_self, hSelf (by simpa using hLive)]
      · rw [Function.update_of_ne hSame]
        exact h.gapless q
  case live =>
    intro q hLive
    by_cases hSame : q = p
    · subst hSame
      dsimp only at hLive ⊢
      rw [owed, if_neg hNodup.1, List.append_nil, hLive, if_neg Bool.false_ne_true, Function.update_self]
      exact hSelf hLive
    · have hBefore := h.live q hLive
      dsimp only
      rw [owed, hOwed q hSame]
      split
      · exact hBefore
      · rw [Function.update_of_ne hSame]
        exact hBefore

theorem Inv.finish {s : State α} (h : Inv s) (hUnvisited : s.unvisited = []) :
    Inv { s with call := none } where
  server := h.server
  busy _ := hUnvisited
  nodup := h.nodup
  accepted := h.accepted
  fresh := h.fresh
  suffix := h.suffix
  gapless := h.gapless
  live p hLive := by
    have hBefore := h.live p hLive
    have hNot : p ∉ s.unvisited := by simp [hUnvisited]
    rw [owed, if_neg hNot] at hBefore
    rw [owed, if_neg hNot]
    exact hBefore

theorem Inv.step {s : State α} (h : Inv s) (a : Action α) : Inv (step s a) := by
  cases a with
  | server a =>
    rw [Publish.step]
    split
    · exact h
    · exact h.ofServer a
  | publish event =>
    rw [Publish.step]
    split
    · exact h
    · rename_i hFree
      rw [Bool.or_eq_true, not_or, Bool.not_eq_true, Bool.not_eq_true, Option.isSome_eq_false_iff,
        Option.isNone_iff_eq_none] at hFree
      exact h.publish hFree.1 hFree.2 event
  | visit =>
    rw [Publish.step, Publish.visit]
    split
    · rename_i hCall hUnvisited
      exact h.visit hCall hUnvisited
    · rename_i hUnvisited
      exact h.finish hUnvisited
    · exact h

/-! ### Runs -/

/-- However clients come and fail and the loops, the cleanup and the contexts interleave: what a
context gets is an unbroken part, from the first event of a call after it was accepted on; and while it is
not aborted and no loop has still to come to it, it has got every event since. -/
theorem no_gap (actions : List (Action α)) (p : ℕ) :
    let s := run step ({} : State α) actions
    s.added p <+: s.offered p ∧ s.offered p <:+ s.published ∧
      ((s.server.clients p).aborted = false → p ∉ s.unvisited → s.added p = s.offered p) := by
  have h : Inv (run step ({} : State α) actions) :=
    run_invariant Inv (fun _ a h => h.step a) inv_init actions
  refine ⟨h.gapless p, h.suffix p, fun hLive hVisited => ?_⟩
  have hAll := h.live p hLive
  rwa [owed, if_neg hVisited, List.append_nil] at hAll

end Fxquant.Gui.Publish
