import Fxquant.Common.Market

/-!
# Candle factories and feeders

`candle_factory.cpp`, `data_feeder.cpp`, and the cycles of `dummy_feeder.cpp` and
`controlled_feeder.cpp` with the cache switched on. What a feeder keeps from one cycle to the
next is its candle factories, its cache and, for the controlled feeder, its count of bars; the
delays of its `sleep` do not show in the calls.
-/

namespace Fxquant.Feeder

structure BarData where
  o : ℚ
  h : ℚ
  l : ℚ
  c : ℚ
  t : ℤ
  deriving DecidableEq, Repr

/-- A time frame is a number of minutes. -/
structure CandleFactory where
  timeFrame : ℕ
  bar : BarData := ⟨0, 0, 0, 0, 0⟩
  deriving DecidableEq, Repr

/-- The start of the candle that a time belongs to, in seconds; `to_time_t` and the division
both truncate. -/
def window (timeFrame : ℕ) (time : ℤ) : ℤ :=
  (time.tdiv 1000).tdiv (timeFrame * 60) * (timeFrame * 60)

def CandleFactory.putTick (f : CandleFactory) (tick : TickData) : CandleFactory × Option BarData :=
  let tickTime := window f.timeFrame tick.time
  let bid := tick.bid
  if tickTime ≠ f.bar.t then
    ({ f with bar := ⟨bid, bid, bid, bid, tickTime⟩ }, if 0 < f.bar.t then some f.bar else none)
  else
    ({ f with bar := { f.bar with
        c := bid
        h := if f.bar.h < bid then bid else f.bar.h
        l := if f.bar.h < bid then f.bar.l else if bid < f.bar.l then bid else f.bar.l } }, none)

inductive Call where
  | onBar (timeFrame : ℕ) (bar : BarData)
  | onTick (tick : TickData)
  deriving DecidableEq, Repr

/-- The time frames of `data_feeder`, in the order of the map of the factories. -/
def timeFrames : List ℕ := [1, 5, 15, 30, 60, 240, 10080, 43200]

def newFactories : List CandleFactory := timeFrames.map fun timeFrame => { timeFrame }

def barsOf (factories : List CandleFactory) (tick : TickData) : List Call :=
  factories.filterMap fun f => (f.putTick tick).2.map (.onBar f.timeFrame)

def onTick (factories : List CandleFactory) (tick : TickData) (ignoreCallback : Bool) :
    List CandleFactory × List Call :=
  (factories.map fun f => (f.putTick tick).1,
    barsOf factories tick ++ if ignoreCallback then [] else [.onTick tick])

def tickOf (sym : Symbol) (doc : TickData) : TickData :=
  { doc with bid := normalize sym doc.bid, ask := normalize sym doc.ask }

/-! ### The dummy feeder -/

def dummyLoop : List CandleFactory → List TickData → List CandleFactory × List Call
  | factories, [] => (factories, [])
  | factories, td :: ticks =>
    let (factories, calls) := onTick factories td false
    let (factories, later) := dummyLoop factories ticks
    (factories, calls ++ later)

structure DummyFeeder where
  factories : List CandleFactory := newFactories
  cache : List TickData := []

/-- A cycle of start, feed to the end and stop: the ticks come from the cache, or from the
database when the cache is empty, and then fill the cache. -/
def DummyFeeder.cycle (sym : Symbol) (docs : List TickData) (f : DummyFeeder) :
    DummyFeeder × List Call :=
  let ticks := if f.cache = [] then docs.map (tickOf sym) else f.cache
  let (factories, calls) := dummyLoop f.factories ticks
  (⟨factories, ticks⟩, calls)

def DummyFeeder.after (sym : Symbol) (docs : List TickData) : ℕ → DummyFeeder
  | 0 => {}
  | k + 1 => ((after sym docs k).cycle sym docs).1

def DummyFeeder.calls (sym : Symbol) (docs : List TickData) (k : ℕ) : List Call :=
  ((after sym docs k).cycle sym docs).2

/-! ### The controlled feeder -/

/-- The constructor sets a negative `lookback_minutes_` to 0. -/
def isWarmingUp (lookbackMinutes barCount : ℕ) : Bool :=
  decide (0 < lookbackMinutes) && decide (barCount < lookbackMinutes)

def isMinuteBar : Call → Bool
  | .onBar timeFrame _ => timeFrame == 1
  | .onTick _ => false

def controlledLoop (lookbackMinutes : ℕ) :
    List CandleFactory × ℕ → List TickData → (List CandleFactory × ℕ) × List Call
  | s, [] => (s, [])
  | (factories, barCount), td :: ticks =>
    let (factories, calls) := onTick factories td (isWarmingUp lookbackMinutes barCount)
    let (s, later) :=
      controlledLoop lookbackMinutes (factories, barCount + calls.countP isMinuteBar) ticks
    (s, calls ++ later)

structure ControlledFeeder where
  factories : List CandleFactory := newFactories
  cache : List TickData := []
  barCount : ℕ := 0

def ControlledFeeder.cycle (sym : Symbol) (lookbackMinutes : ℕ) (docs : List TickData)
    (f : ControlledFeeder) : ControlledFeeder × List Call :=
  let ticks := if f.cache = [] then docs.map (tickOf sym) else f.cache
  let (s, calls) := controlledLoop lookbackMinutes (f.factories, f.barCount) ticks
  (⟨s.1, ticks, s.2⟩, calls)

def ControlledFeeder.after (sym : Symbol) (lookbackMinutes : ℕ) (docs : List TickData) :
    ℕ → ControlledFeeder
  | 0 => {}
  | k + 1 => ((after sym lookbackMinutes docs k).cycle sym lookbackMinutes docs).1

def ControlledFeeder.calls (sym : Symbol) (lookbackMinutes : ℕ) (docs : List TickData) (k : ℕ) :
    List Call :=
  ((after sym lookbackMinutes docs k).cycle sym lookbackMinutes docs).2

/-! ### Factories -/

theorem tdiv_nonpos {a b : ℤ} (ha : a ≤ 0) (hb : 0 ≤ b) : a.tdiv b ≤ 0 := by
  rw [← neg_nonneg, ← Int.neg_tdiv]
  exact Int.tdiv_nonneg (neg_nonneg.mpr ha) hb

theorem window_mono (timeFrame : ℕ) {a b : ℤ} (h : a ≤ b) :
    window timeFrame a ≤ window timeFrame b := by
  cases Nat.eq_zero_or_pos timeFrame with
  | inl hZero =>
    rw [hZero, window, window, Nat.cast_zero, zero_mul, mul_zero, mul_zero]
  | inr hPos =>
    have hLength : (0 : ℤ) < timeFrame * 60 := by omega
    have hSeconds : a.tdiv 1000 ≤ b.tdiv 1000 := Int.tdiv_le_tdiv (by norm_num) h
    exact mul_le_mul_of_nonneg_right (Int.tdiv_le_tdiv hLength hSeconds) hLength.le

theorem CandleFactory.putTick_timeFrame (f : CandleFactory) (tick : TickData) :
    (f.putTick tick).1.timeFrame = f.timeFrame := by
  rw [putTick]
  split <;> rfl

theorem CandleFactory.putTick_t (f : CandleFactory) (tick : TickData) :
    (f.putTick tick).1.bar.t = window f.timeFrame tick.time := by
  rw [putTick]
  split
  · rfl
  · rename_i hSame
    exact (not_ne_iff.mp hSame).symm

/-- A bar is passed on when a tick leaves its candle, unless its time is not positive. -/
theorem CandleFactory.putTick_eq_some_iff {f : CandleFactory} {tick : TickData} {bar : BarData} :
    (f.putTick tick).2 = some bar ↔
      f.bar = bar ∧ 0 < f.bar.t ∧ window f.timeFrame tick.time ≠ f.bar.t := by
  rw [putTick]
  split
  · rename_i hNew
    by_cases hPos : 0 < f.bar.t <;> simp [hPos, hNew]
  · rename_i hSame
    simp [not_ne_iff.mp hSame]

theorem onBar_mem_barsOf {factories : List CandleFactory} {tick : TickData} {timeFrame : ℕ}
    {bar : BarData} : .onBar timeFrame bar ∈ barsOf factories tick ↔
      ∃ f ∈ factories, f.timeFrame = timeFrame ∧ f.bar = bar ∧ 0 < bar.t ∧
        window timeFrame tick.time ≠ bar.t := by
  rw [barsOf, List.mem_filterMap]
  constructor
  · rintro ⟨f, hf, hCall⟩
    obtain ⟨b, hBar, hEq⟩ := Option.map_eq_some_iff.mp hCall
    obtain ⟨rfl, rfl⟩ := Call.onBar.inj hEq
    obtain ⟨rfl, hPos, hNe⟩ := CandleFactory.putTick_eq_some_iff.mp hBar
    exact ⟨f, hf, rfl, rfl, hPos, hNe⟩
  · rintro ⟨f, hf, rfl, rfl, hPos, hNe⟩
    exact ⟨f, hf, by rw [CandleFactory.putTick_eq_some_iff.mpr ⟨rfl, hPos, hNe⟩]; rfl⟩

theorem controlledLoop_cons (lookbackMinutes : ℕ) (factories : List CandleFactory) (barCount : ℕ)
    (td : TickData) (ticks : List TickData) :
    controlledLoop lookbackMinutes (factories, barCount) (td :: ticks) =
      ((controlledLoop lookbackMinutes (factories.map fun f => (f.putTick td).1,
          barCount + (onTick factories td (isWarmingUp lookbackMinutes barCount)).2.countP
            isMinuteBar) ticks).1,
        (onTick factories td (isWarmingUp lookbackMinutes barCount)).2 ++
          (controlledLoop lookbackMinutes (factories.map fun f => (f.putTick td).1,
            barCount + (onTick factories td (isWarmingUp lookbackMinutes barCount)).2.countP
              isMinuteBar) ticks).2) := rfl

/-- The dummy feeder makes the calls of a controlled feeder that never warms up. -/
theorem dummyLoop_eq (factories : List CandleFactory) (barCount : ℕ) (ticks : List TickData) :
    (dummyLoop factories ticks).1 = (controlledLoop 0 (factories, barCount) ticks).1.1 ∧
      (dummyLoop factories ticks).2 = (controlledLoop 0 (factories, barCount) ticks).2 := by
  induction ticks generalizing factories barCount with
  | nil => exact ⟨rfl, rfl⟩
  | cons td ticks ih =>
    have hWarm : isWarmingUp 0 barCount = false := rfl
    rw [dummyLoop, controlledLoop, hWarm]
    exact ⟨(ih _ _).1, congrArg _ (ih _ _).2⟩

end Fxquant.Feeder
