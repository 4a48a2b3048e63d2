import Mathlib.Data.List.Basic

/-!
# A producer, a queue and one worker

A producer pushes events into a queue, in their order; a worker takes them out one at a time
and executes each on its own state. What the worker's state will be once everything has been
executed does not depend on how the steps interleave.
-/

namespace Pipeline

universe u v

variable {ε : Type u} {σ : Type v}

/-- `working` is the event that the worker has taken out and not executed yet. -/
structure State (ε : Type u) (σ : Type v) where
  pending : List ε
  queue : List ε
  working : Option ε
  consumer : σ

inductive Action where
  | push
  | pop
  | exec
  deriving DecidableEq, Repr

/-- A step that is not enabled changes nothing. -/
def step (process : σ → ε → σ) (s : State ε σ) : Action → State ε σ
  | .push =>
    match s.pending with
    | [] => s
    | i :: rest => { s with pending := rest, queue := s.queue ++ [i] }
  | .pop =>
    match s.working, s.queue with
    | none, i :: rest => { s with queue := rest, working := some i }
    | _, _ => s
  | .exec =>
    match s.working with
    | some i => { s with working := none, consumer := process s.consumer i }
    | none => s

def start (events : List ε) (consumer : σ) : State ε σ := ⟨events, [], none, consumer⟩

/-- The events that have not been executed yet, in the order in which they will be. -/
def remaining (s : State ε σ) : List ε := s.working.toList ++ s.queue ++ s.pending

def outcome (process : σ → ε → σ) (s : State ε σ) : σ := (remaining s).foldl process s.consumer

theorem outcome_start (process : σ → ε → σ) (events : List ε) (consumer : σ) :
    outcome process (start events consumer) = events.foldl process consumer := rfl

theorem outcome_step (process : σ → ε → σ) (s : State ε σ) (a : Action) :
    outcome process (step process s a) = outcome process s := by
  obtain ⟨pending, queue, working, consumer⟩ := s
  cases a with
  | push =>
    cases pending with
    | nil => rfl
    | cons i rest => simp [step, outcome, remaining]
  | pop =>
    cases working with
    | some i => rfl
    | none =>
      cases queue with
      | nil => rfl
      | cons i rest => simp [step, outcome, remaining]
  | exec =>
    cases working with
    | none => rfl
    | some i => simp [step, outcome, remaining]

theorem pending_step_of_nil (process : σ → ε → σ) {s : State ε σ} (h : s.pending = []) (a : Action) :
    (step process s a).pending = [] := by
  obtain ⟨pending, queue, working, consumer⟩ := s
  subst h
  cases a with
  | push => rfl
  | pop => cases working <;> cases queue <;> rfl
  | exec => cases working <;> rfl

theorem consumer_of_remaining_nil (process : σ → ε → σ) {s : State ε σ} (h : remaining s = []) :
    s.consumer = outcome process s := by
  rw [outcome, h]
  rfl

end Pipeline
