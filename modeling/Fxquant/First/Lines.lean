import Fxquant.First.Orders

/-!
# Which bars draw the lines

The comments of `on_bar` say that a bar smaller than allowed clears the lines, and the test is the
other way round: a bar larger than `min_candle` clears them and a smaller one draws them. So the
orders of this strategy are opened after small bars only.
-/

namespace Fxquant.First

open Feeder

def candleSize (env : Env) (bar : BarData) : ℚ := (bar.h - bar.l) / env.point

def lastMinuteBar (events : List Event) : Option BarData := (events.filterMap Event.minuteBar?).getLast?

/-- On every tick of the run that opens an order, the last bar of one minute was larger than
`min_candle`. -/
def OpensAfterLegalBars (env : Env) (autoOrderId : ℕ) (events : List Event) : Prop :=
  ∀ before tick later, events = before ++ .tick tick :: later →
    (after env autoOrderId before).engine.nextPtr <
        (after env autoOrderId (before ++ [.tick tick])).engine.nextPtr →
      ∃ bar, lastMinuteBar before = some bar ∧ env.params.minCandle < candleSize env bar

/-- A tick leaves the bars and the lines alone. -/
theorem onTick_keeps (env : Env) (s : State) (tick : TickData) :
    (s.onTick env tick).bars = s.bars ∧ (s.onTick env tick).buyLine = s.buyLine := by
  rcases State.onTick_cases env s tick with ⟨_, _, hEq⟩ | ⟨_, _, hEq⟩ | ⟨_, _, hEq⟩
  · rw [hEq]
    exact ⟨rfl, rfl⟩
  · rw [hEq]
    exact ⟨rfl, rfl⟩
  · rw [hEq]
    exact ⟨rfl, rfl⟩

theorem getBars_step (env : Env) (s : State) (event : Event) :
    (step env s event).bars.getBars 1 = s.bars.getBars 1 ++ event.minuteBar?.toList := by
  cases event with
  | tick tick =>
    rw [step, (onTick_keeps env s tick).1]
    exact (List.append_nil _).symm
  | bar timeFrame bar =>
    obtain ⟨_, _, _, hEq, _⟩ := State.step_bar_eq env s timeFrame bar
    rw [hEq, Event.minuteBar?]
    by_cases hFrame : timeFrame = 1
    · subst hFrame
      exact s.bars.getBars_putBar 1 bar
    · rw [if_neg hFrame, Option.toList_none, List.append_nil]
      exact s.bars.getBars_putBar_of_ne hFrame bar

/-- The collector has the bars of one minute of the run. -/
theorem getBars_after (env : Env) (autoOrderId : ℕ) (events : List Event) :
    (after env autoOrderId events).bars.getBars 1 = events.filterMap Event.minuteBar? := by
  induction events using List.reverseRecOn with
  | nil => rfl
  | append_singleton events event ih =>
    rw [after, Runs.run_concat, getBars_step, ← after, ih, List.filterMap_append]
    cases hBar : event.minuteBar? <;> simp [hBar]

theorem getBars_of_putBar (s : State) (bar : BarData) :
    { s with bars := s.bars.putBar 1 bar }.getBars 1 2 =
      (s.bars.getBars 1).getLast?.map fun first => [first, bar] := by
  rw [State.getBars, s.bars.putBar 1 bar |>.getLastBars_eq 1 2 Nat.two_pos, s.bars.getBars_putBar]
  cases List.eq_nil_or_concat (s.bars.getBars 1) with
  | inl hNil => simp [hNil]
  | inr hConcat =>
    obtain ⟨bars, first, hBars⟩ := hConcat
    simp [hBars]

/-- What a bar of one minute does from the second one on: a large one clears the lines, a small one
draws them around the open price of the bar before it. -/
theorem step_minute (env : Env) (s : State) (bar : BarData) :
    step env s (.bar 1 bar) =
      match (s.bars.getBars 1).getLast? with
      | none => { s with bars := s.bars.putBar 1 bar }
      | some first =>
        if candleSize env bar ≤ env.params.minCandle then { s with
          bars := s.bars.putBar 1 bar
          buyLine := first.o + env.params.linesDist * env.point / 2
          sellLine := first.o + env.params.linesDist * env.point / 2 - env.params.linesDist * env.point
          tradeOpensInCurrentBar := 0 }
        else { s with
          bars := s.bars.putBar 1 bar
          buyLine := 0
          sellLine := 0 } := by
  rw [step, State.onBar, if_neg (by decide), getBars_of_putBar]
  cases (s.bars.getBars 1).getLast? with
  | none => rfl
  | some first =>
    simp only [Option.map_some, candleSize]
    by_cases hSize : (bar.h - bar.l) / env.point ≤ env.params.minCandle
    · simp [State.isBarLegal, hSize]
    · simp [State.isBarLegal, hSize]

/-- Lines that enable trading were drawn by the last bar of one minute, a small one. -/
def DrawnBySmallBar (env : Env) (s : State) : Prop :=
  0 < s.buyLine → ∃ bar, (s.bars.getBars 1).getLast? = some bar ∧
    candleSize env bar ≤ env.params.minCandle

theorem drawnBySmallBar_step {env : Env} {s : State} (h : DrawnBySmallBar env s) (event : Event) :
    DrawnBySmallBar env (step env s event) := by
  cases event with
  | tick tick =>
    obtain ⟨hBars, hLine⟩ := onTick_keeps env s tick
    rw [DrawnBySmallBar, step, hLine, hBars]
    exact h
  | bar timeFrame bar =>
    by_cases hFrame : timeFrame = 1
    · subst hFrame
      intro hLine
      have hLast : ((step env s (.bar 1 bar)).bars.getBars 1).getLast? = some bar := by
        rw [getBars_step, Event.minuteBar?, if_pos rfl, Option.toList_some, List.getLast?_append]
        rfl
      refine ⟨bar, hLast, ?_⟩
      rw [step_minute] at hLine
      cases hFirst : (s.bars.getBars 1).getLast? with
      | none =>
        rw [hFirst] at hLine
        obtain ⟨_, hBar, _⟩ := h hLine
        rw [hFirst] at hBar
        cases hBar
      | some first =>
        by_contra hLarge
        rw [hFirst] at hLine
        simp only [hLarge, if_false] at hLine
        exact hLine.false
    · have hSame : (step env s (.bar timeFrame bar)).buyLine = s.buyLine := by
        rw [step, State.onBar, if_pos hFrame]
      rw [DrawnBySmallBar, hSame, getBars_step, Event.minuteBar?, if_neg hFrame, Option.toList_none,
        List.append_nil]
      exact h

theorem drawnBySmallBar_after (env : Env) (autoOrderId : ℕ) (events : List Event) :
    DrawnBySmallBar env (after env autoOrderId events) :=
  Runs.run_invariant (DrawnBySmallBar env) (fun _ event h => drawnBySmallBar_step h event)
    (fun hLine => absurd hLine (lt_irrefl _)) events

end Fxquant.First
