import Fxquant.Feeder.Feeders

/-!
# When the cycles of a feeder replay each other

The candle factories keep the last candle of a cycle, and the first tick of the next cycle
completes it. The cycles agree exactly when there is no such candle to complete: the ticks
lie within one minute, or not after the epoch.
-/

namespace Fxquant.Feeder

/-! ### Candles -/

theorem tdiv_mul (s : ℤ) (a b : ℕ) : s.tdiv (a * b : ℕ) = (s.tdiv a).tdiv b := by
  obtain ⟨n, rfl | rfl⟩ := Int.eq_nat_or_neg s
  · rw [← Int.ofNat_tdiv, ← Int.ofNat_tdiv, ← Int.ofNat_tdiv, Nat.div_div_eq_div_mul]
  · rw [Int.neg_tdiv, Int.neg_tdiv, Int.neg_tdiv, ← Int.ofNat_tdiv, ← Int.ofNat_tdiv,
      ← Int.ofNat_tdiv, Nat.div_div_eq_div_mul]

theorem window_eq (timeFrame : ℕ) (time : ℤ) :
    window timeFrame time = ((time.tdiv 1000).tdiv 60).tdiv timeFrame * (timeFrame * 60) := by
  have hSplit := tdiv_mul (time.tdiv 1000) 60 timeFrame
  rw [window, mul_comm (timeFrame : ℤ) 60]
  push_cast at hSplit
  rw [hSplit]

theorem window_one (time : ℤ) : window 1 time = (time.tdiv 1000).tdiv 60 * 60 := by
  rw [window_eq, Nat.cast_one, Int.tdiv_one, one_mul]

theorem window_congr {a b : ℤ} (h : window 1 a = window 1 b) (timeFrame : ℕ) :
    window timeFrame a = window timeFrame b := by
  rw [window_one, window_one] at h
  rw [window_eq, window_eq, mul_right_cancel₀ (by norm_num) h]

theorem window_nonpos {a : ℤ} (h : window 1 a ≤ 0) (timeFrame : ℕ) : window timeFrame a ≤ 0 := by
  rw [window_one] at h
  have hMinute : (a.tdiv 1000).tdiv 60 ≤ 0 := by omega
  rw [window_eq]
  exact mul_nonpos_of_nonpos_of_nonneg (tdiv_nonpos hMinute (Int.natCast_nonneg _)) (by positivity)

/-- Any two ticks lie within one minute, or both not after the epoch. -/
def OneMinute (ticks : List TickData) : Prop :=
  ∀ a ∈ ticks, ∀ b ∈ ticks, window 1 a.time = window 1 b.time ∨
    (window 1 a.time ≤ 0 ∧ window 1 b.time ≤ 0)

/-! ### Ticks that complete no bar -/

def Quiet (ticks : List TickData) (f : CandleFactory) : Prop :=
  ∀ tick ∈ ticks, f.bar.t ≤ 0 ∨ window f.timeFrame tick.time = f.bar.t

theorem Quiet.putTick {ticks : List TickData} (hTicks : OneMinute ticks) (f : CandleFactory)
    {tick : TickData} (hMem : tick ∈ ticks) : Quiet ticks (f.putTick tick).1 := by
  intro other hOther
  rw [f.putTick_t, f.putTick_timeFrame]
  rcases hTicks tick hMem other hOther with hSame | ⟨hPast, _⟩
  · exact .inr (window_congr hSame f.timeFrame).symm
  · exact .inl (window_nonpos hPast f.timeFrame)

theorem barsOf_of_quiet {ticks : List TickData} {factories : List CandleFactory}
    (h : ∀ f ∈ factories, Quiet ticks f) {tick : TickData} (hMem : tick ∈ ticks) :
    barsOf factories tick = [] := by
  rw [barsOf, List.filterMap_eq_nil_iff]
  intro f hf
  cases hBar : (f.putTick tick).2 with
  | none => rfl
  | some bar =>
    obtain ⟨_, hPos, hNe⟩ := CandleFactory.putTick_eq_some_iff.mp hBar
    cases h f hf tick hMem with
    | inl hPast =>
      exact absurd hPos (not_lt.mpr hPast)
    | inr hSame =>
      exact absurd hSame hNe

theorem controlledLoop_of_quiet {ticks : List TickData} (hTicks : OneMinute ticks)
    (lookbackMinutes barCount : ℕ) {rest : List TickData} (hRest : rest ⊆ ticks)
    {factories : List CandleFactory} (h : ∀ f ∈ factories, Quiet ticks f) :
    (∀ f ∈ (controlledLoop lookbackMinutes (factories, barCount) rest).1.1, Quiet ticks f) ∧
      (controlledLoop lookbackMinutes (factories, barCount) rest).1.2 = barCount ∧
      (controlledLoop lookbackMinutes (factories, barCount) rest).2 =
        if isWarmingUp lookbackMinutes barCount then [] else rest.map .onTick := by
  induction rest generalizing factories with
  | nil => exact ⟨h, rfl, by rw [List.map_nil, ite_self]; rfl⟩
  | cons td rest ih =>
    have hMem : td ∈ ticks := hRest List.mem_cons_self
    have hQuiet : ∀ f ∈ factories.map (fun f => (f.putTick td).1), Quiet ticks f := by
      intro f hf
      obtain ⟨g, _, rfl⟩ := List.mem_map.mp hf
      exact Quiet.putTick hTicks g hMem
    obtain ⟨hAfter, hCount, hCalls⟩ := ih (fun _ hx => hRest (List.mem_cons_of_mem _ hx)) hQuiet
    have hBars : (onTick factories td (isWarmingUp lookbackMinutes barCount)).2 =
        if isWarmingUp lookbackMinutes barCount then [] else [.onTick td] := by
      rw [onTick, barsOf_of_quiet h hMem, List.nil_append]
    have hMinutes : (onTick factories td (isWarmingUp lookbackMinutes barCount)).2.countP
        isMinuteBar = 0 := by
      rw [hBars]
      split <;> rfl
    rw [controlledLoop_cons, hMinutes, Nat.add_zero]
    refine ⟨hAfter, hCount, ?_⟩
    rw [hBars, hCalls]
    split <;> rfl

/-! ### The candle that a cycle leaves behind -/

theorem controlledLoop_timeFrames (lookbackMinutes : ℕ) (ticks : List TickData) :
    ∀ (factories : List CandleFactory) (barCount : ℕ),
      (controlledLoop lookbackMinutes (factories, barCount) ticks).1.1.map CandleFactory.timeFrame =
        factories.map CandleFactory.timeFrame := by
  induction ticks with
  | nil => exact fun _ _ => rfl
  | cons td ticks ih =>
    intro factories barCount
    rw [controlledLoop_cons]
    refine (ih _ _).trans ?_
    rw [List.map_map]
    exact List.map_congr_left fun f _ => f.putTick_timeFrame td

theorem controlledLoop_last (lookbackMinutes : ℕ) (init : List TickData) (last : TickData) :
    ∀ (factories : List CandleFactory) (barCount : ℕ),
      ∀ f ∈ (controlledLoop lookbackMinutes (factories, barCount) (init ++ [last])).1.1,
        f.bar.t = window f.timeFrame last.time := by
  induction init with
  | nil =>
    intro factories barCount f hf
    obtain ⟨g, _, rfl⟩ := List.mem_map.mp hf
    rw [g.putTick_t, g.putTick_timeFrame]
  | cons td init ih =>
    intro factories barCount f hf
    exact ih _ _ f hf

/-- The first tick of a cycle completes a candle left of a later time than the epoch's. -/
theorem onBar_mem_of_left {factories : List CandleFactory} {f : CandleFactory} (hf : f ∈ factories)
    (hPos : 0 < f.bar.t) {first : TickData} (hNe : window f.timeFrame first.time ≠ f.bar.t)
    (lookbackMinutes barCount : ℕ) (rest : List TickData) :
    .onBar f.timeFrame f.bar ∈
      (controlledLoop lookbackMinutes (factories, barCount) (first :: rest)).2 := by
  rw [controlledLoop_cons, onTick]
  apply List.mem_append_left
  apply List.mem_append_left
  exact onBar_mem_barsOf.mpr ⟨f, hf, rfl, rfl, hPos, hNe⟩

theorem onBar_lt_of_sorted {ticks : List TickData} {bar : BarData} (lookbackMinutes : ℕ)
    (hSorted : ticks.Pairwise fun a b => a.time ≤ b.time) :
    ∀ (factories : List CandleFactory) (barCount : ℕ),
      (∀ f ∈ factories, f.timeFrame = 1 →
        f.bar.t ≤ 0 ∨ ∀ tick ∈ ticks, f.bar.t ≤ window 1 tick.time) →
      .onBar 1 bar ∈ (controlledLoop lookbackMinutes (factories, barCount) ticks).2 →
      ∃ tick ∈ ticks, bar.t < window 1 tick.time := by
  induction ticks with
  | nil => exact fun _ _ _ hCall => nomatch hCall
  | cons td ticks ih =>
    intro factories barCount hBefore hCall
    obtain ⟨hFirst, hRest⟩ := List.pairwise_cons.mp hSorted
    rw [controlledLoop_cons] at hCall
    cases List.mem_append.mp hCall with
    | inl hCall =>
      have hBar : .onBar 1 bar ∈ barsOf factories td := by
        rw [onTick] at hCall
        cases List.mem_append.mp hCall with
        | inl hBar =>
          exact hBar
        | inr hTick =>
          split at hTick
          · exact nomatch hTick
          · exact absurd (List.mem_singleton.mp hTick) (by simp)
      obtain ⟨f, hf, hFrame, rfl, hPos, hNe⟩ := onBar_mem_barsOf.mp hBar
      cases hBefore f hf hFrame with
      | inl hPast =>
        exact absurd hPos (not_lt.mpr hPast)
      | inr hLe =>
        exact ⟨td, List.mem_cons_self, lt_of_le_of_ne (hLe td List.mem_cons_self) hNe.symm⟩
    | inr hCall =>
      obtain ⟨tick, hTick, hLt⟩ := ih hRest _ _ (fun f hf hFrame => by
        obtain ⟨g, _, rfl⟩ := List.mem_map.mp hf
        rw [g.putTick_timeFrame] at hFrame
        refine .inr fun tick hTick => ?_
        rw [g.putTick_t, hFrame]
        exact window_mono 1 (hFirst tick hTick)) hCall
      exact ⟨tick, List.mem_cons_of_mem _ hTick, hLt⟩

/-! ### Cycles -/

theorem cycle_ticks (sym : Symbol) (lookbackMinutes : ℕ) (docs : List TickData) (k : ℕ) :
    (if (ControlledFeeder.after sym lookbackMinutes docs k).cache = [] then docs.map (tickOf sym)
      else (ControlledFeeder.after sym lookbackMinutes docs k).cache) = docs.map (tickOf sym) := by
  induction k with
  | zero => exact if_pos rfl
  | succ k ih =>
    have hCache : (ControlledFeeder.after sym lookbackMinutes docs (k + 1)).cache =
        docs.map (tickOf sym) := ih
    rw [hCache]
    split <;> rfl

def stateAt (sym : Symbol) (lookbackMinutes : ℕ) (docs : List TickData) (k : ℕ) :
    List CandleFactory × ℕ :=
  ((ControlledFeeder.after sym lookbackMinutes docs k).factories,
    (ControlledFeeder.after sym lookbackMinutes docs k).barCount)

theorem stateAt_succ (sym : Symbol) (lookbackMinutes : ℕ) (docs : List TickData) (k : ℕ) :
    stateAt sym lookbackMinutes docs (k + 1) =
      (controlledLoop lookbackMinutes (stateAt sym lookbackMinutes docs k)
        (docs.map (tickOf sym))).1 := by
  rw [← cycle_ticks sym lookbackMinutes docs k]
  rfl

theorem calls_eq (sym : Symbol) (lookbackMinutes : ℕ) (docs : List TickData) (k : ℕ) :
    ControlledFeeder.calls sym lookbackMinutes docs k =
      (controlledLoop lookbackMinutes (stateAt sym lookbackMinutes docs k)
        (docs.map (tickOf sym))).2 := by
  rw [← cycle_ticks sym lookbackMinutes docs k]
  rfl

theorem stateAt_zero (sym : Symbol) (lookbackMinutes : ℕ) (docs : List TickData) :
    stateAt sym lookbackMinutes docs 0 = (newFactories, 0) := rfl

theorem newFactories_t {f : CandleFactory} (h : f ∈ newFactories) : f.bar.t = 0 := by
  obtain ⟨_, _, rfl⟩ := List.mem_map.mp h
  rfl

theorem calls_of_oneMinute {sym : Symbol} {docs : List TickData}
    (h : OneMinute (docs.map (tickOf sym))) (lookbackMinutes k : ℕ) :
    ControlledFeeder.calls sym lookbackMinutes docs k =
      if isWarmingUp lookbackMinutes 0 then [] else (docs.map (tickOf sym)).map .onTick := by
  have hState : (∀ f ∈ (stateAt sym lookbackMinutes docs k).1, Quiet (docs.map (tickOf sym)) f) ∧
      (stateAt sym lookbackMinutes docs k).2 = 0 := by
    induction k with
    | zero => exact ⟨fun f hf tick _ => .inl (newFactories_t hf).le, rfl⟩
    | succ k ih =>
      obtain ⟨hQuiet, hCount⟩ := ih
      obtain ⟨hAfter, hAfterCount, _⟩ := controlledLoop_of_quiet h lookbackMinutes
        (stateAt sym lookbackMinutes docs k).2 (List.Subset.refl _) hQuiet
      rw [stateAt_succ]
      exact ⟨hAfter, hAfterCount.trans hCount⟩
  obtain ⟨hQuiet, hCount⟩ := hState
  obtain ⟨_, _, hCalls⟩ := controlledLoop_of_quiet h lookbackMinutes
    (stateAt sym lookbackMinutes docs k).2 (List.Subset.refl _) hQuiet
  rw [calls_eq, ← hCount]
  exact hCalls

theorem window_head_le {first : TickData} {rest : List TickData}
    (hSorted : (first :: rest).Pairwise fun a b => a.time ≤ b.time) :
    ∀ a ∈ first :: rest, window 1 first.time ≤ window 1 a.time := by
  intro a ha
  cases ha with
  | head => exact le_rfl
  | tail _ ha => exact window_mono 1 ((List.pairwise_cons.mp hSorted).1 a ha)

theorem window_le_last {init : List TickData} {last : TickData}
    (hSorted : (init ++ [last]).Pairwise fun a b => a.time ≤ b.time) :
    ∀ a ∈ init ++ [last], window 1 a.time ≤ window 1 last.time := by
  intro a ha
  cases List.mem_append.mp ha with
  | inl ha =>
    exact window_mono 1 ((List.pairwise_append.mp hSorted).2.2 a ha last List.mem_cons_self)
  | inr ha =>
    rw [List.mem_singleton.mp ha]

/-- A cycle over the same ticks that starts where the first one ended makes the calls of the first
only if the first left no minute candle for it to complete. -/
theorem no_bar_left {lookbackMinutes : ℕ} {first last : TickData} {init rest : List TickData}
    (hConcat : first :: rest = init ++ [last])
    (hSorted : (first :: rest).Pairwise fun a b => a.time ≤ b.time)
    (h : (controlledLoop lookbackMinutes
        (controlledLoop lookbackMinutes (newFactories, 0) (first :: rest)).1 (first :: rest)).2 =
      (controlledLoop lookbackMinutes (newFactories, 0) (first :: rest)).2) :
    window 1 first.time = window 1 last.time ∨ window 1 last.time ≤ 0 := by
  by_contra hLeft
  obtain ⟨hNe, hPos⟩ := not_or.mp hLeft
  obtain ⟨f, hf, hFrame⟩ : ∃ f ∈ (controlledLoop lookbackMinutes (newFactories, 0)
      (first :: rest)).1.1, f.timeFrame = 1 := by
    rw [← List.mem_map, controlledLoop_timeFrames]
    decide
  have hBar : f.bar.t = window 1 last.time := by
    rw [hConcat] at hf
    rw [controlledLoop_last lookbackMinutes init last _ _ f hf, hFrame]
  have hCompletes : window f.timeFrame first.time ≠ f.bar.t := by
    rw [hFrame, hBar]
    exact hNe
  have hCall := onBar_mem_of_left hf (hBar ▸ not_le.mp hPos) hCompletes lookbackMinutes
    (controlledLoop lookbackMinutes (newFactories, 0) (first :: rest)).1.2 rest
  rw [Prod.mk.eta, h, hFrame] at hCall
  -- The first cycle would have to pass that bar on too, but it starts without a candle and no tick
  -- of it comes after the last.
  obtain ⟨tick, hTick, hLt⟩ := onBar_lt_of_sorted lookbackMinutes hSorted newFactories 0
    (fun g hg _ => .inl (newFactories_t hg).le) hCall
  have hLe : window 1 tick.time ≤ window 1 last.time :=
    window_le_last (hConcat ▸ hSorted) tick (hConcat ▸ hTick)
  exact absurd hLe (not_le.mpr (hBar ▸ hLt))

theorem oneMinute_of_calls_eq {sym : Symbol} {lookbackMinutes : ℕ} {docs : List TickData}
    (hSorted : (docs.map (tickOf sym)).Pairwise fun a b => a.time ≤ b.time)
    (h : ControlledFeeder.calls sym lookbackMinutes docs 1 =
      ControlledFeeder.calls sym lookbackMinutes docs 0) : OneMinute (docs.map (tickOf sym)) := by
  rw [calls_eq, calls_eq, stateAt_succ, stateAt_zero] at h
  generalize docs.map (tickOf sym) = ticks at hSorted h
  cases ticks with
  | nil => exact fun a ha => absurd ha List.not_mem_nil
  | cons first rest =>
    obtain ⟨init, last, hConcat⟩ : ∃ init last, first :: rest = init ++ [last] :=
      (List.eq_nil_or_concat' (first :: rest)).resolve_left (List.cons_ne_nil first rest)
    have hFirst := window_head_le hSorted
    have hLast := window_le_last (hConcat ▸ hSorted)
    rw [← hConcat] at hLast
    intro a ha b hb
    cases no_bar_left hConcat hSorted h with
    | inl hSame =>
      have hA := le_antisymm (hLast a ha) (hSame ▸ hFirst a ha)
      have hB := le_antisymm (hLast b hb) (hSame ▸ hFirst b hb)
      exact .inl (hA.trans hB.symm)
    | inr hPast =>
      exact .inr ⟨(hLast a ha).trans hPast, (hLast b hb).trans hPast⟩

theorem oneMinute_map_tickOf (sym : Symbol) (docs : List TickData) :
    OneMinute (docs.map (tickOf sym)) ↔ OneMinute docs := by
  simp [OneMinute, tickOf]

theorem controlled_replays_iff (sym : Symbol) (lookbackMinutes : ℕ) {docs : List TickData}
    (hSorted : docs.Pairwise fun a b => a.time ≤ b.time) :
    (∀ k, ControlledFeeder.calls sym lookbackMinutes docs k =
      ControlledFeeder.calls sym lookbackMinutes docs 0) ↔ OneMinute docs := by
  rw [← oneMinute_map_tickOf sym]
  constructor
  · intro h
    exact oneMinute_of_calls_eq (List.pairwise_map.mpr hSorted) (h 1)
  · intro h k
    rw [calls_of_oneMinute h, calls_of_oneMinute h]

theorem dummy_calls_eq (sym : Symbol) (docs : List TickData) (k : ℕ) :
    DummyFeeder.calls sym docs k = ControlledFeeder.calls sym 0 docs k := by
  have hAfter : (DummyFeeder.after sym docs k).factories =
        (ControlledFeeder.after sym 0 docs k).factories ∧
      (DummyFeeder.after sym docs k).cache = (ControlledFeeder.after sym 0 docs k).cache := by
    induction k with
    | zero => exact ⟨rfl, rfl⟩
    | succ k ih =>
      obtain ⟨hFactories, hCache⟩ := ih
      rw [DummyFeeder.after, DummyFeeder.cycle, ControlledFeeder.after, ControlledFeeder.cycle,
        hFactories, hCache]
      exact ⟨(dummyLoop_eq _ _ _).1, rfl⟩
  rw [DummyFeeder.calls, DummyFeeder.cycle, ControlledFeeder.calls, ControlledFeeder.cycle, hAfter.1,
    hAfter.2]
  exact (dummyLoop_eq _ _ _).2

/-- For ticks in time order all cycles of a feeder make the calls of the first exactly when the
ticks lie within one minute, or not after the epoch: of either feeder. -/
theorem cycles_replay_iff (sym : Symbol) (lookbackMinutes : ℕ) (docs : List TickData)
    (hSorted : docs.Pairwise fun a b => a.time ≤ b.time) :
    ((∀ k, DummyFeeder.calls sym docs k = DummyFeeder.calls sym docs 0) ↔ OneMinute docs) ∧
      ((∀ k, ControlledFeeder.calls sym lookbackMinutes docs k =
        ControlledFeeder.calls sym lookbackMinutes docs 0) ↔ OneMinute docs) := by
  refine ⟨?_, controlled_replays_iff sym lookbackMinutes hSorted⟩
  rw [← controlled_replays_iff sym 0 hSorted]
  simp only [dummy_calls_eq]

theorem second_cycle_starts_with_a_bar :
    let docs : List TickData := [⟨1, 10001 / 10000, 60000⟩, ⟨1, 10001 / 10000, 120000⟩]
    DummyFeeder.calls .eurusd docs 1 ≠ DummyFeeder.calls .eurusd docs 0 ∧
      ControlledFeeder.calls .eurusd 0 docs 1 ≠ ControlledFeeder.calls .eurusd 0 docs 0 := by
  decide +kernel

theorem one_minute_replays :
    let docs : List TickData := [⟨1, 2, 60000⟩, ⟨1, 2, 61000⟩]
    (∀ k, DummyFeeder.calls .eurusd docs k = DummyFeeder.calls .eurusd docs 0) ∧
      ∀ k, ControlledFeeder.calls .eurusd 5 docs k = ControlledFeeder.calls .eurusd 5 docs 0 := by
  have hMinute : OneMinute [⟨1, 2, 60000⟩, ⟨1, 2, 61000⟩] := by
    rw [OneMinute]
    decide +kernel
  have hReplay := cycles_replay_iff .eurusd 5 [⟨1, 2, 60000⟩, ⟨1, 2, 61000⟩] (by decide)
  exact ⟨hReplay.1.mpr hMinute, hReplay.2.mpr hMinute⟩

end Fxquant.Feeder
