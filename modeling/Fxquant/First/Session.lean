import Fxquant.Engine.DataEvents
import Fxquant.First.Backtest

/-!
# The first strategy behind a feeder

The threads of a feeder, the queue of data events and its worker, on whose engine the first strategy
runs. Bars come in other events than ticks and the worker lags behind, but the orders are at every
moment those of the rule after some of the ticks.
-/

namespace Fxquant.First

open Feeder Runs

namespace Rule

/-- While fewer minutes are complete than the feeder looks back, a tick is seen and not traded on. -/
def watch (env : Env) (lookbackMinutes : ℕ) (r : Rule) (tick : TickData) : Rule :=
  r.step env (tick, decide ((minutes r.past).dropLast.length < lookbackMinutes))

end Rule

/-- The strategy, once the worker has executed some calls. -/
def executed (env : Env) (autoOrderId : ℕ) (calls : List Call) : State :=
  after env autoOrderId (calls.map Event.ofCall)

theorem executed_append (env : Env) (autoOrderId : ℕ) (before calls : List Call) :
    executed env autoOrderId (before ++ calls) =
      run (step env) (executed env autoOrderId before) (calls.map Event.ofCall) := by
  rw [executed, executed, List.map_append, after, run_append, after]

/-- Bars trade nothing. -/
theorem engine_bars (env : Env) (s : State) {calls : List Call}
    (hBars : ∀ call ∈ calls, ∃ timeFrame bar, call = .onBar timeFrame bar) :
    (run (step env) s (calls.map Event.ofCall)).engine = s.engine := by
  apply run_invariant_of_mem fun t : State => t.engine = s.engine
  · rfl
  · intro t ht event hEvent
    obtain ⟨call, hCall, rfl⟩ := List.mem_map.mp hEvent
    obtain ⟨timeFrame, bar, rfl⟩ := hBars call hCall
    obtain ⟨counter, buyLine, sellLine, hStep, _⟩ := State.step_bar_eq env t timeFrame bar
    rw [Event.ofCall, hStep]
    exact ht

theorem isWarmingUp_eq (lookbackMinutes barCount : ℕ) :
    isWarmingUp lookbackMinutes barCount = decide (barCount < lookbackMinutes) := by
  rw [isWarmingUp, ← Bool.decide_and]
  exact decide_eq_decide.mpr ⟨And.right, fun h => ⟨Nat.zero_lt_of_lt h, h⟩⟩

/-- The feeder flags a tick as the rule does: its minute bars are the complete minutes. -/
theorem controlledLoop_flags (env : Env) (autoOrderId lookbackMinutes : ℕ) {ticks : List TickData}
    (hPos : ∀ tick ∈ ticks, 0 < window 1 tick.time) :
    ∃ flagged : List (TickData × Bool), flagged.map Prod.fst = ticks ∧
      (controlledLoop lookbackMinutes (newFactories, 0) ticks).1.1 = (feed newFactories flagged).1 ∧
      (controlledLoop lookbackMinutes (newFactories, 0) ticks).2 = (feed newFactories flagged).2 ∧
      run (Rule.watch env lookbackMinutes) { engine := { autoOrderId } } ticks =
        run (Rule.step env) { engine := { autoOrderId } } flagged := by
  induction ticks using List.reverseRecOn with
  | nil => exact ⟨[], rfl, rfl, rfl, rfl⟩
  | append_singleton ticks tick ih =>
    have hOld : ∀ tick ∈ ticks, 0 < window 1 tick.time := fun t ht => hPos t (List.mem_append_left _ ht)
    obtain ⟨flagged, hTicks, hFactories, hCalls, hRule⟩ := ih hOld
    have hBars := minuteBars_eq lookbackMinutes ticks
    rw [putTicks_bars hOld, List.length_map] at hBars
    have hFlagged : ∀ t ∈ flagged.map Prod.fst, 0 < window 1 t.time := by rwa [hTicks]
    have hPast := (follows_backtest env autoOrderId hFlagged).2
    rw [controlledLoop_append]
    generalize controlledLoop lookbackMinutes (newFactories, 0) ticks = loop at hFactories hCalls hBars ⊢
    obtain ⟨⟨factories, barCount⟩, calls⟩ := loop
    dsimp only at hFactories hCalls hBars
    subst hFactories hCalls
    refine ⟨flagged ++ [(tick, isWarmingUp lookbackMinutes barCount)], ?_, ?_, ?_, ?_⟩
    · rw [List.map_append, hTicks]
      rfl
    · rw [controlledLoop_cons, feed_factories, feed_factories, List.map_map, List.map_append]
      apply List.map_congr_left
      intro f _
      rw [List.map_singleton, CandleFactory.putTicks_concat]
      rfl
    · rw [controlledLoop_cons, feed_concat]
      exact congrArg _ (List.append_nil _)
    · rw [run_concat, run_concat, hRule, Rule.watch, hPast, hTicks, isWarmingUp_eq, hBars]
      rfl

/-- With all calls of a feeder executed, the engine is that of the rule. -/
theorem engine_executed (env : Env) (autoOrderId lookbackMinutes : ℕ) {ticks : List TickData}
    (hPos : ∀ tick ∈ ticks, 0 < window 1 tick.time) :
    (executed env autoOrderId (controlledLoop lookbackMinutes (newFactories, 0) ticks).2).engine =
      (run (Rule.watch env lookbackMinutes) { engine := { autoOrderId } } ticks).engine := by
  obtain ⟨flagged, rfl, _, hCalls, hRule⟩ := controlledLoop_flags env autoOrderId lookbackMinutes hPos
  rw [hCalls, hRule]
  exact (follows_backtest env autoOrderId hPos).1.engine

/-- A part of the calls of a tick is all of them, or bars. -/
theorem prefix_onTick {factories : List CandleFactory} {tick : TickData} {ignoreCallback : Bool}
    {calls : List Call} (h : calls <+: (onTick factories tick ignoreCallback).2) :
    calls = (onTick factories tick ignoreCallback).2 ∨
      ∀ call ∈ calls, ∃ timeFrame bar, call = .onBar timeFrame bar := by
  rw [onTick] at h ⊢
  cases ignoreCallback with
  | true =>
    rw [if_pos rfl, List.append_nil] at h
    exact .inr fun call hCall => isBar_of_mem_barsOf (h.subset hCall)
  | false =>
    rw [if_neg Bool.false_ne_true] at h ⊢
    rcases List.prefix_concat_iff.mp h with hAll | hBars
    · exact .inl hAll
    · exact .inr fun call hCall => isBar_of_mem_barsOf (hBars.subset hCall)

theorem engine_prefix (env : Env) (autoOrderId lookbackMinutes : ℕ) {ticks : List TickData}
    (hPos : ∀ tick ∈ ticks, 0 < window 1 tick.time) {calls : List Call}
    (h : calls <+: (controlledLoop lookbackMinutes (newFactories, 0) ticks).2) :
    ∃ traded, traded <+: ticks ∧ (executed env autoOrderId calls).engine =
      (run (Rule.watch env lookbackMinutes) { engine := { autoOrderId } } traded).engine := by
  induction ticks using List.reverseRecOn generalizing calls with
  | nil =>
    obtain rfl : calls = [] := List.prefix_nil.mp h
    exact ⟨[], List.prefix_rfl, rfl⟩
  | append_singleton ticks tick ih =>
    have hOld : ∀ tick ∈ ticks, 0 < window 1 tick.time := fun t ht => hPos t (List.mem_append_left _ ht)
    have hWhole := engine_executed env autoOrderId lookbackMinutes hPos
    have hBefore := engine_executed env autoOrderId lookbackMinutes hOld
    rw [controlledLoop_append] at h hWhole
    rcases List.prefix_or_prefix_of_prefix h (List.prefix_append _ _) with hEarlier | ⟨more, rfl⟩
    · obtain ⟨traded, hTraded, hEngine⟩ := ih hOld hEarlier
      exact ⟨traded, hTraded.trans (List.prefix_append _ _), hEngine⟩
    · have hMore := (List.prefix_append_right_inj _).mp h
      rw [controlledLoop_cons] at hMore hWhole
      dsimp only at hMore hWhole
      rw [show (controlledLoop lookbackMinutes _ []).2 = [] from rfl, List.append_nil] at hMore hWhole
      rcases prefix_onTick hMore with hAll | hBars
      · exact ⟨ticks ++ [tick], List.prefix_rfl, hAll ▸ hWhole⟩
      · refine ⟨ticks, List.prefix_append _ _, ?_⟩
        rw [executed_append, engine_bars env _ hBars]
        exact hBefore

/-- A feeder with three ticks, the last of which is above the line of the minutes before. -/
def threeMinutes : Setup :=
  ⟨.eurusd,
    [⟨1, 10001 / 10000, 60000⟩, ⟨1, 10001 / 10000, 120000⟩, ⟨10011 / 10000, 10012 / 10000, 180000⟩],
    false, 0⟩

end Fxquant.First
