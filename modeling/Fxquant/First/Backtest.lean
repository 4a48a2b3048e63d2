import Fxquant.Feeder.TimeFrames
import Fxquant.First.Lines

/-!
# The first strategy on a feed

A feeder makes bars of its ticks, the engine collects them, and the strategy draws its lines from
the last two of one minute. `Rule` says what comes of it without any bar: the lines are those of
the last two complete minutes of the ticks so far, and the orders of a minute are counted.
-/

namespace Fxquant.First

open Feeder Grouping FxEngine

def Event.ofCall : Call → Event
  | .onBar timeFrame b => .bar timeFrame b
  | .onTick td => .tick td

/-- The strategy once its engine has handled every call of a new feeder; the flag of a tick says that
the feeder keeps it for itself. -/
def backtest (env : Env) (autoOrderId : ℕ) (ticks : List (TickData × Bool)) : State :=
  after env autoOrderId ((feed newFactories ticks).2.map Event.ofCall)

/-! ### The rule -/

def minutes (ticks : List TickData) : List (List TickData) := groups (windowOf 1) ticks

def openBid (minute : List TickData) : ℚ := (minute.map TickData.bid).headD 0

/-- The move of the bid within a minute. -/
def bidRange (minute : List TickData) : ℚ :=
  (minute.map TickData.bid).max?.getD 0 - (minute.map TickData.bid).min?.getD 0

/-- The price between the lines, after some complete minutes. -/
def center (env : Env) (complete : List (List TickData)) : Option ℚ :=
  match complete.reverse with
  | last :: previous :: _ =>
    if bidRange last / env.point ≤ env.params.minCandle then some (openBid previous) else none
  | _ => none

def linesAround (env : Env) : Option ℚ → ℚ × ℚ
  | none => (0, 0)
  | some mid =>
    (mid + env.params.linesDist * env.point / 2, mid - env.params.linesDist * env.point / 2)

structure Rule where
  engine : FxEngine := {}
  past : List TickData := []
  opened : ℤ := 0

namespace Rule

def startsMinute (r : Rule) (tick : TickData) : Bool :=
  r.past.getLast?.any fun last => windowOf 1 last ≠ windowOf 1 tick

/-- A tick trades by the lines of the minutes before its own. -/
def trade (env : Env) (r : Rule) (tick : TickData) : Rule :=
  let (buyLine, sellLine) := linesAround env (center env (minutes r.past).dropLast)
  let s := State.onTick env
    { engine := r.engine, tradeOpensInCurrentBar := r.opened, buyLine, sellLine } tick
  { r with engine := s.engine, opened := s.tradeOpensInCurrentBar }

def step (env : Env) (r : Rule) (td : TickData × Bool) : Rule :=
  let r' := { r with
    past := r.past ++ [td.1]
    opened := if r.startsMinute td.1 then 0 else r.opened }
  if td.2 then r' else r'.trade env td.1

end Rule

/-! ### What the strategy sees -/

/-- A state without the bars that are not read. -/
structure View where
  engine : FxEngine
  bars : List BarData
  opened : ℤ
  buyLine : ℚ
  sellLine : ℚ

def State.view (s : State) : View :=
  ⟨s.engine, s.bars.getBars 1, s.tradeOpensInCurrentBar, s.buyLine, s.sellLine⟩

namespace View

def onMinute (env : Env) (v : View) (bar : BarData) : View :=
  match v.bars.getLast? with
  | none => { v with bars := v.bars ++ [bar] }
  | some first =>
    if candleSize env bar ≤ env.params.minCandle then
      let buyLine := first.o + env.params.linesDist * env.point / 2
      { v with
        bars := v.bars ++ [bar]
        buyLine
        sellLine := buyLine - env.params.linesDist * env.point
        opened := 0 }
    else { v with bars := v.bars ++ [bar], buyLine := 0, sellLine := 0 }

def onTick (env : Env) (v : View) (tick : TickData) : View :=
  let s := State.onTick env
    { engine := v.engine, tradeOpensInCurrentBar := v.opened, buyLine := v.buyLine
      sellLine := v.sellLine } tick
  { v with engine := s.engine, opened := s.tradeOpensInCurrentBar }

end View

theorem view_minute (env : Env) (s : State) (bar : BarData) :
    (step env s (.bar 1 bar)).view = s.view.onMinute env bar := by
  rw [step_minute, State.view, View.onMinute, State.view]
  cases (s.bars.getBars 1).getLast? with
  | none => simp only [s.bars.getBars_putBar 1 bar]
  | some first =>
    dsimp only
    split <;> simp only [s.bars.getBars_putBar 1 bar]

theorem view_other (env : Env) (s : State) {timeFrame : ℕ} (hFrame : timeFrame ≠ 1) (bar : BarData) :
    (step env s (.bar timeFrame bar)).view = s.view := by
  rw [step, State.onBar, if_pos hFrame, State.view, State.view, s.bars.getBars_putBar_of_ne hFrame bar]

theorem onTick_sellLine (env : Env) (s : State) (tick : TickData) :
    (s.onTick env tick).sellLine = s.sellLine := by
  rcases State.onTick_cases env s tick with ⟨_, _, hEq⟩ | ⟨_, _, hEq⟩ | ⟨_, _, hEq⟩
  · rw [hEq]
  · rw [hEq]
  · rw [hEq]
    rfl

/-- Whatever bars are collected, an order is sent alike. -/
theorem orderSend_withBars (env : Env) (s : State) (bars : BarCollector) (type : OrderType)
    (tick : TickData) (openPrice : ℚ) (sl tp : ℤ) :
    { s with bars }.orderSend env type tick openPrice sl tp =
      ({ (s.orderSend env type tick openPrice sl tp).1 with bars },
        (s.orderSend env type tick openPrice sl tp).2) := by
  rw [State.orderSend_eq, State.orderSend_eq]
  cases sentOrder type env.symbol tick env.params.volume openPrice sl tp
      (s.engine.autoOrderId + 1) none with
  | none => rfl
  | some o => rfl

/-- A tick reads no bar. -/
theorem onTick_withBars (env : Env) (s : State) (bars : BarCollector) (tick : TickData) :
    { s with bars }.onTick env tick = { s.onTick env tick with bars } := by
  have hCount : ∀ r : State × Bool,
      (if r.2 then
          { { r.1 with bars } with tradeOpensInCurrentBar := r.1.tradeOpensInCurrentBar + 1 }
        else { r.1 with bars }) =
        ({ (if r.2 then { r.1 with tradeOpensInCurrentBar := r.1.tradeOpensInCurrentBar + 1 }
          else r.1) with bars } : State) := by
    intro r
    cases r.2 <;> rfl
  rw [State.onTick, State.onTick]
  by_cases hLines : s.buyLine ≤ 0 ∨ s.sellLine ≤ 0
  · rw [if_pos hLines, if_pos hLines]
  by_cases hOpen : s.engine.openedOrders ≠ []
  · rw [if_neg hLines, if_neg hLines, if_pos hOpen, if_pos hOpen]
    rfl
  by_cases hMax : env.params.maxTradesPerCandle ≤ s.tradeOpensInCurrentBar
  · rw [if_neg hLines, if_neg hLines, if_neg hOpen, if_neg hOpen, if_pos hMax, if_pos hMax]
  rw [if_neg hLines, if_neg hLines, if_neg hOpen, if_neg hOpen, if_neg hMax, if_neg hMax]
  by_cases hBuy : s.buyLine ≤ tick.bid
  · simp only [if_pos hBuy, orderSend_withBars]
    exact hCount _
  · by_cases hSell : tick.bid ≤ s.sellLine
    · simp only [if_neg hBuy, if_pos hSell, orderSend_withBars]
      exact hCount _
    · simp only [if_neg hBuy, if_neg hSell]
      rfl

theorem view_tick (env : Env) (s : State) (tick : TickData) :
    (step env s (.tick tick)).view = s.view.onTick env tick := by
  have hBars := onTick_withBars env s {} tick
  rw [step, State.view, View.onTick, (onTick_keeps env s tick).1, (onTick_keeps env s tick).2,
    onTick_sellLine]
  simp only [State.view]
  rw [hBars]

/-- Of some bars, those of one minute are seen. -/
theorem view_bars (env : Env) (s : State) (calls : List Call)
    (hBars : ∀ call ∈ calls, ∃ timeFrame bar, call = .onBar timeFrame bar) :
    (Runs.run (step env) s (calls.map Event.ofCall)).view =
      Runs.run (View.onMinute env) s.view (barsIn 1 calls) := by
  induction calls generalizing s with
  | nil => rfl
  | cons call calls ih =>
    obtain ⟨timeFrame, bar, rfl⟩ := hBars call List.mem_cons_self
    have hLater : ∀ call ∈ calls, ∃ timeFrame bar, call = .onBar timeFrame bar := fun call hCall =>
      hBars call (List.mem_cons_of_mem _ hCall)
    rw [List.map_cons, Runs.run_cons, ih _ hLater, ← List.singleton_append, barsIn_append,
      Runs.run_append]
    by_cases hFrame : timeFrame = 1
    · subst hFrame
      rw [Event.ofCall, view_minute]
      rfl
    · have hNone : barsIn 1 [.onBar timeFrame bar] = [] := by simp [barsIn, barOf, hFrame]
      rw [Event.ofCall, view_other env s hFrame, hNone, Runs.run_nil]

/-! ### Minutes and their bars -/

theorem candle_o (minute : List TickData) : (candle 1 minute).o = openBid minute := by
  rw [candle, merge, List.map_map]
  rfl

theorem candleSize_candle (env : Env) (minute : List TickData) :
    candleSize env (candle 1 minute) = bidRange minute / env.point := by
  rw [candleSize, candle, merge, List.map_map, List.map_map, List.map_map]
  rfl

theorem center_concat (env : Env) (complete : List (List TickData)) (minute : List TickData) :
    center env (complete ++ [minute]) = complete.getLast?.bind fun previous =>
      if bidRange minute / env.point ≤ env.params.minCandle then some (openBid previous) else none := by
  rcases List.eq_nil_or_concat complete with rfl | ⟨init, previous, rfl⟩
  · rfl
  · simp [center]

theorem center_getLast {env : Env} {complete : List (List TickData)} (h : complete.getLast? = none) :
    center env complete = none := by
  rw [List.getLast?_eq_none_iff.mp h]
  rfl

/-- The bars of one minute that a new feeder passes on with one more tick: the minute before, if the
tick starts one. -/
theorem minutes_concat {ticks : List (TickData × Bool)} (td : TickData × Bool)
    (hPos : ∀ tick ∈ (ticks ++ [td]).map Prod.fst, 0 < window 1 tick.time) :
    (minutes ((ticks ++ [td]).map Prod.fst)).dropLast.map (candle 1) =
      (minutes (ticks.map Prod.fst)).dropLast.map (candle 1) ++
        barsIn 1 (barsOf (feed newFactories ticks).1 td.1) := by
  have hOld : ∀ tick ∈ ticks.map Prod.fst, 0 < window 1 tick.time := by
    intro tick hTick
    rw [List.map_append] at hPos
    exact hPos tick (List.mem_append_left _ hTick)
  have hFrame : 1 ∈ timeFrames := by decide
  have hBefore := barsIn_fresh hFrame ticks hOld
  have hAfter := barsIn_fresh hFrame (ticks ++ [td]) hPos
  rw [feed_concat, barsIn_append, hBefore, barsIn_onTick, candles, candles, ← List.map_dropLast,
    ← List.map_dropLast] at hAfter
  exact hAfter.symm

/-- A tick either belongs to the minute of the last one or completes it. -/
theorem minutes_past (r : Rule) (tick : TickData) :
    r.startsMinute tick = false ∧
        (minutes (r.past ++ [tick])).dropLast = (minutes r.past).dropLast ∨
      r.startsMinute tick = true ∧ ∃ minute,
        (minutes (r.past ++ [tick])).dropLast = (minutes r.past).dropLast ++ [minute] := by
  rw [Rule.startsMinute]
  rcases List.eq_nil_or_concat r.past with hNil | ⟨before, last, hPast⟩
  · rw [hNil]
    exact .inl ⟨rfl, rfl⟩
  · obtain ⟨init, minute, hMinutes⟩ := groups_eq_concat (windowOf 1) (l := r.past) (by simp [hPast])
    have hLast : last ∈ minute := by
      have hFlat := flatten_groups (windowOf 1) r.past
      have hNe : minute ≠ [] := ne_nil_of_mem (by rw [hMinutes]; simp : minute ∈ groups (windowOf 1) r.past)
      rw [hMinutes, List.flatten_append, List.flatten_singleton, hPast] at hFlat
      have hGet : (init.flatten ++ minute).getLast? = some last := by rw [hFlat]; simp
      rw [List.getLast?_append_of_ne_nil _ hNe] at hGet
      exact List.mem_of_getLast? hGet
    have hGet : r.past.getLast? = some last := by simp [hPast]
    rw [hGet, Option.any_some, minutes, minutes, hMinutes, List.dropLast_concat]
    by_cases hSame : windowOf 1 last = windowOf 1 tick
    · rw [groups_concat_of_eq hMinutes hLast hSame, List.dropLast_concat]
      exact .inl ⟨by simp [hSame], rfl⟩
    · rw [groups_concat_of_ne hMinutes hLast hSame, List.dropLast_concat]
      exact .inr ⟨by simp [hSame], minute, rfl⟩

/-! ### The strategy follows the rule -/

structure Follows (env : Env) (v : View) (r : Rule) : Prop where
  engine : v.engine = r.engine
  bars : v.bars = (minutes r.past).dropLast.map (candle 1)
  lines : (v.buyLine, v.sellLine) = linesAround env (center env (minutes r.past).dropLast)
  opened : 0 < v.buyLine → v.opened = r.opened

theorem onTick_of_noLine {env : Env} {s : State} (h : s.buyLine ≤ 0) (tick : TickData) :
    s.onTick env tick = s := by
  rw [State.onTick, if_pos (.inl h)]

theorem Follows.trade {env : Env} {v : View} {r : Rule} (h : Follows env v r) (tick : TickData) :
    Follows env (v.onTick env tick) (r.trade env tick) := by
  obtain ⟨hEngine, hBars, hLines, hOpened⟩ := h
  have hTrade : r.trade env tick =
      let s := State.onTick env { engine := v.engine, tradeOpensInCurrentBar := r.opened
                                  buyLine := v.buyLine, sellLine := v.sellLine } tick
      { r with engine := s.engine, opened := s.tradeOpensInCurrentBar } := by
    rw [Rule.trade, ← hLines, hEngine]
  rw [hTrade]
  by_cases hLine : v.buyLine ≤ 0
  · rw [View.onTick, onTick_of_noLine hLine, onTick_of_noLine hLine]
    exact ⟨rfl, hBars, hLines, fun hPos => absurd hPos (not_lt.mpr hLine)⟩
  · rw [← hOpened (not_le.mp hLine)]
    exact ⟨rfl, hBars, hLines, fun _ => rfl⟩

theorem Follows.sameMinute {env : Env} {v : View} {r : Rule} (h : Follows env v r) {tick : TickData}
    (hMinutes : (minutes (r.past ++ [tick])).dropLast = (minutes r.past).dropLast) :
    Follows env v { r with past := r.past ++ [tick] } :=
  ⟨h.engine, by rw [hMinutes]; exact h.bars, by rw [hMinutes]; exact h.lines, h.opened⟩

theorem Follows.newMinute {env : Env} {v : View} {r : Rule} (h : Follows env v r) {tick : TickData}
    {minute : List TickData}
    (hMinutes : (minutes (r.past ++ [tick])).dropLast = (minutes r.past).dropLast ++ [minute]) :
    Follows env (v.onMinute env (candle 1 minute)) { r with past := r.past ++ [tick], opened := 0 } := by
  obtain ⟨hEngine, hBars, hLines, _⟩ := h
  have hAppend : v.bars ++ [candle 1 minute] =
      (minutes (r.past ++ [tick])).dropLast.map (candle 1) := by
    rw [hMinutes, List.map_append, hBars, List.map_singleton]
  have hLast : v.bars.getLast? = (minutes r.past).dropLast.getLast?.map (candle 1) := by
    rw [hBars, List.getLast?_map]
  rw [View.onMinute, hLast]
  cases hPrevious : (minutes r.past).dropLast.getLast? with
  | none =>
    -- The first minute draws no line, and there was none before it.
    rw [center_getLast hPrevious] at hLines
    refine ⟨hEngine, hAppend, ?_, fun hPos => ?_⟩
    · rw [hMinutes, center_concat, hPrevious]
      exact hLines
    · rw [(Prod.mk.inj hLines).1] at hPos
      exact absurd hPos (lt_irrefl _)
  | some previous =>
    have hCenter : center env (minutes (r.past ++ [tick])).dropLast =
        if bidRange minute / env.point ≤ env.params.minCandle then some (openBid previous) else none := by
      rw [hMinutes, center_concat, hPrevious, Option.bind_some]
    rw [Option.map_some]
    dsimp only
    rw [candleSize_candle, candle_o]
    by_cases hSmall : bidRange minute / env.point ≤ env.params.minCandle
    · rw [if_pos hSmall] at hCenter ⊢
      refine ⟨hEngine, hAppend, ?_, fun _ => rfl⟩
      rw [hCenter, linesAround]
      exact Prod.ext rfl (by ring)
    · rw [if_neg hSmall] at hCenter ⊢
      refine ⟨hEngine, hAppend, ?_, fun hPos => absurd hPos (lt_irrefl _)⟩
      rw [hCenter, linesAround]

/-- The bars of a tick are seen before the tick. -/
theorem Follows.seen {env : Env} {v : View} {r : Rule} (h : Follows env v r) {tick : TickData}
    {bars : List BarData}
    (hBars : (minutes (r.past ++ [tick])).dropLast.map (candle 1) =
      (minutes r.past).dropLast.map (candle 1) ++ bars) :
    Follows env (Runs.run (View.onMinute env) v bars)
      { r with
        past := r.past ++ [tick]
        opened := if r.startsMinute tick then 0 else r.opened } := by
  rcases minutes_past r tick with ⟨hSame, hMinutes⟩ | ⟨hStarts, minute, hMinutes⟩
  · have hNone : bars = [] := by simpa [hMinutes] using hBars
    rw [hNone, hSame]
    exact h.sameMinute hMinutes
  · have hOne : bars = [candle 1 minute] := by
      rw [hMinutes, List.map_append] at hBars
      exact (List.append_cancel_left hBars).symm
    rw [hOne, hStarts]
    exact h.newMinute hMinutes

theorem isBar_of_mem_barsOf {factories : List CandleFactory} {tick : TickData} {call : Call}
    (h : call ∈ barsOf factories tick) : ∃ timeFrame bar, call = .onBar timeFrame bar := by
  rw [barsOf, List.mem_filterMap] at h
  obtain ⟨f, _, hCall⟩ := h
  obtain ⟨bar, _, rfl⟩ := Option.map_eq_some_iff.mp hCall
  exact ⟨f.timeFrame, bar, rfl⟩

theorem backtest_concat (env : Env) (autoOrderId : ℕ) (ticks : List (TickData × Bool))
    (td : TickData × Bool) :
    (backtest env autoOrderId (ticks ++ [td])).view =
      let v := Runs.run (View.onMinute env) (backtest env autoOrderId ticks).view
        (barsIn 1 (barsOf (feed newFactories ticks).1 td.1))
      if td.2 then v else v.onTick env td.1 := by
  have hBars := view_bars env (backtest env autoOrderId ticks)
    (barsOf (feed newFactories ticks).1 td.1) fun _ hCall => isBar_of_mem_barsOf hCall
  rw [backtest, after, feed_concat, List.map_append, Runs.run_append, ← after, ← backtest, onTick,
    List.map_append, Runs.run_append, ← hBars]
  cases td.2 with
  | true => rfl
  | false => exact view_tick env _ td.1

theorem follows_backtest (env : Env) (autoOrderId : ℕ) {ticks : List (TickData × Bool)}
    (hPos : ∀ tick ∈ ticks.map Prod.fst, 0 < window 1 tick.time) :
    Follows env (backtest env autoOrderId ticks).view
        (Runs.run (Rule.step env) { engine := { autoOrderId } } ticks) ∧
      (Runs.run (Rule.step env) { engine := { autoOrderId } } ticks).past = ticks.map Prod.fst := by
  induction ticks using List.reverseRecOn with
  | nil => exact ⟨⟨rfl, rfl, rfl, fun _ => rfl⟩, rfl⟩
  | append_singleton ticks td ih =>
    have hOld : ∀ tick ∈ ticks.map Prod.fst, 0 < window 1 tick.time := by
      intro tick hTick
      rw [List.map_append] at hPos
      exact hPos tick (List.mem_append_left _ hTick)
    obtain ⟨hFollows, hPast⟩ := ih hOld
    have hMinutes := minutes_concat td hPos
    rw [List.map_append, List.map_singleton, ← hPast] at hMinutes
    have hSeen := hFollows.seen hMinutes
    rw [Runs.run_concat, backtest_concat, Rule.step, List.map_append, ← hPast]
    cases td.2 with
    | true => exact ⟨hSeen, rfl⟩
    | false => exact ⟨hSeen.trade td.1, rfl⟩

end Fxquant.First
