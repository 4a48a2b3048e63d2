import Fxquant.Engine.DefaultStrategy
import Fxquant.Engine.Stats
import Fxquant.Feeder.Feeders
import Fxquant.Ladder.Strategy
import Fxquant.Library.Pipeline
import Fxquant.Library.Runs

/-!
# The optimizer

`optimizer::run` with its three threads: the feeder, which pushes the events of an iteration
and then signals its stop event, the worker of the data events, and the optimizer itself, which
waits for the stop event and calculates the statistics. Nothing makes it wait for the worker.
-/

namespace Fxquant.Optimizer

/-- What an optimizer run is set up with. `create` is the strategy generator, with the state of
each new strategy on its new engine; `feed` is what the feeder passes on in an iteration;
`process` is the worker's execution of an event. -/
structure Setup (σ : Type) where
  create : ℕ → Option σ
  feed : ℕ → List Feeder.Call
  process : σ → Feeder.Call → σ
  engine : σ → FxEngine

structure Iteration (σ : Type) where
  pipeline : Pipeline.State Feeder.Call σ
  signaled : Bool

structure State (σ : Type) where
  iteration : Option (Iteration σ) := none
  stats : List ClosedTradesStats := []

inductive Action where
  | create
  | events (a : Pipeline.Action)
  | signalStop
  | calcStats
  deriving DecidableEq, Repr

variable {σ : Type}

/-- One step of one of the threads. The feeder signals after its last event, and the engine of an
iteration is destroyed after its statistics. -/
def step (setup : Setup σ) (s : State σ) : Action → State σ
  | .create =>
    match s.iteration, setup.create s.stats.length with
    | none, some strategy =>
      { s with
        iteration := some ⟨Pipeline.start (setup.feed s.stats.length) strategy, false⟩ }
    | _, _ => s
  | .events a =>
    match s.iteration with
    | some it =>
      { s with
        iteration := some { it with pipeline := Pipeline.step setup.process it.pipeline a } }
    | none => s
  | .signalStop =>
    match s.iteration with
    | some it =>
      if it.pipeline.pending = [] then { s with iteration := some { it with signaled := true } }
      else s
    | none => s
  | .calcStats =>
    match s.iteration with
    | some it =>
      if it.signaled then
        { iteration := none
          stats := s.stats ++ [(setup.engine it.pipeline.consumer).calcClosedTradesStats] }
      else s
    | none => s

/-- The optimizer calculates statistics only once the worker has executed what was pushed. -/
def Drained (s : State σ) (a : Action) : Prop :=
  a = .calcStats → ∀ it, s.iteration = some it → it.signaled = true →
    it.pipeline.queue = [] ∧ it.pipeline.working = none

def fullStats (setup : Setup σ) (k : ℕ) : Option ClosedTradesStats :=
  (setup.create k).map fun strategy =>
    (setup.engine ((setup.feed k).foldl setup.process strategy)).calcClosedTradesStats

structure Inv (setup : Setup σ) (s : State σ) : Prop where
  outcome : ∀ it, s.iteration = some it → ∃ strategy, setup.create s.stats.length = some strategy ∧
    Pipeline.outcome setup.process it.pipeline =
      (setup.feed s.stats.length).foldl setup.process strategy
  signaled : ∀ it, s.iteration = some it → it.signaled = true → it.pipeline.pending = []
  stats : ∀ k stats, s.stats[k]? = some stats → fullStats setup k = some stats

theorem inv_start (setup : Setup σ) : Inv setup {} where
  outcome _ h := nomatch h
  signaled _ h := nomatch h
  stats k stats h := by simp at h

theorem Inv.create {setup : Setup σ} {s : State σ} (h : Inv setup s) :
    Inv setup (step setup s .create) := by
  cases hIteration : s.iteration with
  | some it => simpa [step, hIteration] using h
  | none =>
    cases hCreate : setup.create s.stats.length with
    | none => simpa [step, hIteration, hCreate] using h
    | some strategy =>
      have hStep : step setup s .create = { s with
          iteration := some ⟨Pipeline.start (setup.feed s.stats.length) strategy, false⟩ } := by
        simp [step, hIteration, hCreate]
      rw [hStep]
      refine ⟨fun it hIt => ?_, fun it hIt hSignaled => ?_, h.stats⟩
      · obtain rfl := Option.some.inj hIt
        exact ⟨strategy, hCreate, Pipeline.outcome_start _ _ _⟩
      · obtain rfl := Option.some.inj hIt
        exact absurd hSignaled Bool.false_ne_true

theorem Inv.events {setup : Setup σ} {s : State σ} (h : Inv setup s) (a : Pipeline.Action) :
    Inv setup (step setup s (.events a)) := by
  cases hIteration : s.iteration with
  | none => simpa [step, hIteration] using h
  | some it =>
    have hStep : step setup s (.events a) = { s with
        iteration := some { it with pipeline := Pipeline.step setup.process it.pipeline a } } := by
      simp [step, hIteration]
    rw [hStep]
    refine ⟨fun it' hIt => ?_, fun it' hIt hSignaled => ?_, h.stats⟩
    · obtain rfl := Option.some.inj hIt
      obtain ⟨strategy, hCreate, hOutcome⟩ := h.outcome it hIteration
      exact ⟨strategy, hCreate, (Pipeline.outcome_step setup.process it.pipeline a).trans hOutcome⟩
    · obtain rfl := Option.some.inj hIt
      exact Pipeline.pending_step_of_nil setup.process (h.signaled it hIteration hSignaled) a

theorem Inv.signalStop {setup : Setup σ} {s : State σ} (h : Inv setup s) :
    Inv setup (step setup s .signalStop) := by
  cases hIteration : s.iteration with
  | none => simpa [step, hIteration] using h
  | some it =>
    by_cases hPending : it.pipeline.pending = []
    · have hStep : step setup s .signalStop = { s with
          iteration := some { it with signaled := true } } := by
        simp [step, hIteration, hPending]
      rw [hStep]
      refine ⟨fun it' hIt => ?_, fun it' hIt _ => ?_, h.stats⟩
      · obtain rfl := Option.some.inj hIt
        exact h.outcome it hIteration
      · obtain rfl := Option.some.inj hIt
        exact hPending
    · simpa [step, hIteration, hPending] using h

/-- Statistics that are calculated from a drained pipeline are those of the whole feed. -/
theorem Inv.calcStats {setup : Setup σ} {s : State σ} (h : Inv setup s)
    (hDrained : Drained s .calcStats) : Inv setup (step setup s .calcStats) := by
  cases hIteration : s.iteration with
  | none => simpa [step, hIteration] using h
  | some it =>
    cases hSignaled : it.signaled with
    | false => simpa [step, hIteration, hSignaled] using h
    | true =>
      have hStep : step setup s .calcStats =
          { iteration := none
            stats := s.stats ++ [(setup.engine it.pipeline.consumer).calcClosedTradesStats] } := by
        simp [step, hIteration, hSignaled]
      obtain ⟨hQueue, hWorking⟩ := hDrained rfl it hIteration hSignaled
      obtain ⟨strategy, hCreate, hOutcome⟩ := h.outcome it hIteration
      have hRemaining : Pipeline.remaining it.pipeline = [] := by
        rw [Pipeline.remaining, hQueue, hWorking, h.signaled it hIteration hSignaled]
        rfl
      rw [← Pipeline.consumer_of_remaining_nil setup.process hRemaining] at hOutcome
      rw [hStep]
      constructor
      · intro it' hIt
        cases hIt
      · intro it' hIt
        cases hIt
      · intro k stats hStats
        cases Nat.lt_or_ge k s.stats.length with
        | inl hk =>
          rw [List.getElem?_append_left hk] at hStats
          exact h.stats k stats hStats
        | inr hk =>
          rw [List.getElem?_append_right hk, List.getElem?_singleton] at hStats
          split at hStats
          · rename_i hLast
            obtain rfl : s.stats.length = k := le_antisymm hk (Nat.sub_eq_zero_iff_le.mp hLast)
            rw [← Option.some.inj hStats, hOutcome, fullStats, hCreate]
            rfl
          · cases hStats

theorem Inv.step {setup : Setup σ} {s : State σ} (h : Inv setup s) (a : Action)
    (hDrained : Drained s a) : Inv setup (step setup s a) := by
  cases a with
  | create => exact h.create
  | events a => exact h.events a
  | signalStop => exact h.signalStop
  | calcStats => exact h.calcStats hDrained

theorem inv_run {setup : Setup σ} {actions : List Action}
    (hDrained : Runs.Always (step setup) Drained {} actions) :
    Inv setup (Runs.run (step setup) {} actions) :=
  Runs.run_invariant_of_always (Inv setup) (fun _ a h hStep => h.step a hStep) (inv_start setup)
    hDrained

/-- In a run in which statistics are only ever calculated once the worker is through, those of
every iteration are the statistics of its whole feed. -/
theorem stats_cover_the_feed (setup : Setup σ) (actions : List Action)
    (hDrained : Runs.Always (step setup) Drained {} actions) (k : ℕ) (stats : ClosedTradesStats)
    (hStats : (Runs.run (step setup) {} actions).stats[k]? = some stats) :
    fullStats setup k = some stats :=
  (inv_run hDrained).stats k stats hStats

/-! ### The number of iterations -/

/-- Each iteration takes one of `n` strategies. -/
structure AtMost (n : ℕ) (s : State σ) : Prop where
  stats : s.stats.length ≤ n
  iteration : ∀ it, s.iteration = some it → s.stats.length < n

/-- Another state of the iteration under way. -/
theorem AtMost.update {n : ℕ} {s : State σ} (h : AtMost n s) {it : Iteration σ}
    (hIteration : s.iteration = some it) (it' : Iteration σ) :
    AtMost n { s with iteration := some it' } where
  stats := h.stats
  iteration _ _ := h.iteration it hIteration

theorem AtMost.step {setup : Setup σ} {n : ℕ} (hEnd : setup.create n = none) {s : State σ}
    (h : AtMost n s) (a : Action) : AtMost n (step setup s a) := by
  cases a with
  | create =>
    rw [Optimizer.step]
    split
    · rename_i strategy _ hCreate
      constructor
      · exact h.stats
      · intro _ _
        apply lt_of_le_of_ne h.stats
        intro hLast
        rw [hLast, hEnd] at hCreate
        cases hCreate
    · exact h
  | events a =>
    rw [Optimizer.step]
    split
    · rename_i it hIteration
      exact h.update hIteration _
    · exact h
  | signalStop =>
    rw [Optimizer.step]
    split
    · rename_i it hIteration
      split
      · exact h.update hIteration _
      · exact h
    · exact h
  | calcStats =>
    rw [Optimizer.step]
    split
    · rename_i it hIteration
      split
      · constructor
        · rw [List.length_append]
          exact h.iteration it hIteration
        · intro it' hNone
          cases hNone
      · exact h
    · exact h

theorem iterations_le {setup : Setup σ} {n : ℕ} (hEnd : setup.create n = none)
    (actions : List Action) : (Runs.run (step setup) {} actions).stats.length ≤ n := by
  have hAtMost : AtMost n (Runs.run (step setup) {} actions) := by
    apply Runs.run_invariant (AtMost n) (fun s a h => h.step hEnd a)
    exact ⟨Nat.zero_le n, nofun⟩
  exact hAtMost.stats

/-! ### The ladder strategy under the optimizer -/

/-- `data_event_callback` on an engine with a ladder strategy. A bar goes to the bar collector and
to an `on_bar` that does nothing with it. -/
def ladderEvent (s : Ladder.Env × Ladder.State) : Feeder.Call → Ladder.Env × Ladder.State
  | .onTick tick =>
    (s.1, { s.2 with
      engine := { s.2.engine with latestTick := some tick }.addNewOrders }.onTick s.1 tick)
  | .onBar _ _ => s

/-- A generator of the caller's own, of ladder strategies with the given parameters, each with the
order ids drawn before it. -/
def ladderSetup (strategies : List (Ladder.Env × ℕ)) (feed : ℕ → List Feeder.Call) :
    Setup (Ladder.Env × Ladder.State) where
  create k := strategies[k]?.map fun (env, autoOrderId) => (env, Ladder.start autoOrderId)
  feed := feed
  process := ladderEvent
  engine s := s.2.engine

def twentyPoints : Ladder.Env where
  symbol := .eurusd
  params := {
    volume := 1 / 10, sl := 1000, tp := 20, softTp := 0, step := 100, lvlTolerance := 5
    tradesPerLvl := 1, closeCycleOnProfit := 0, sectionsInHalfRange := 100, sectionsOffset := 0
    maxLotsAllowed := 0, maxSpread := 0, plr := 0 }
  outOfRange := fun _ => Doubles.intMin
  accepted := by decide +kernel

def risingFeed : List Feeder.Call :=
  [.onTick (quote 1.0000 1.0001 0), .onTick (quote 1.0005 1.0006 1000)]

/-- A tenth of a lot bought on the first tick and sold on the second. -/
def risingProfit : ℚ := (Doubles.rounded 1.0005 - Doubles.rounded 1.0001) * 10000

theorem lagging_worker_is_left_out :
    ¬ ∀ k stats, (Runs.run (step (ladderSetup [(twentyPoints, 0)] fun _ => risingFeed)) {}
        [.create, .events .push, .events .push, .signalStop, .calcStats]).stats[k]? = some stats →
      fullStats (ladderSetup [(twentyPoints, 0)] fun _ => risingFeed) k = some stats := by
  intro hCover
  exact absurd (hCover 0 ⟨0, 0, 0, 0, 0, 0, 0, 0, 0, 0⟩ (by decide +kernel)) (by decide +kernel)

theorem prompt_worker_is_covered :
    fullStats (ladderSetup [(twentyPoints, 0)] fun _ => risingFeed) 0 =
      some ⟨1, 1, 0, 1, 0, 0, 1000, risingProfit, risingProfit, 0⟩ :=
  stats_cover_the_feed (ladderSetup [(twentyPoints, 0)] fun _ => risingFeed)
    [.create, .events .push, .events .push, .signalStop, .events .pop, .events .exec,
      .events .pop, .events .exec, .calcStats]
    ⟨nofun, nofun, nofun, nofun, nofun, nofun, nofun, nofun,
      fun _ it hIt _ => by
        obtain rfl := Option.some.inj hIt
        exact ⟨rfl, rfl⟩, trivial⟩
    0 ⟨1, 1, 0, 1, 0, 0, 1000, risingProfit, risingProfit, 0⟩ (by decide +kernel)

end Fxquant.Optimizer
