import Fxquant.Feeder.Candles

/-!
# The time frames of one feeder

A `data_feeder` runs a factory for each of its time frames over the same ticks and passes the
bars on in the order of its map. The bars of a time frame depend on the ticks alone, so the
frames are compared through the groups of ticks behind their bars.
-/

namespace Fxquant.Feeder

open Grouping

/-- A sequence of calls of `data_feeder::on_tick`. -/
def feed : List CandleFactory → List (TickData × Bool) → List CandleFactory × List Call
  | factories, [] => (factories, [])
  | factories, (tick, ignoreCallback) :: ticks =>
    let (factories, calls) := onTick factories tick ignoreCallback
    let (factories, later) := feed factories ticks
    (factories, calls ++ later)

def barOf (timeFrame : ℕ) : Call → Option BarData
  | .onBar tf bar => if tf = timeFrame then some bar else none
  | .onTick _ => none

def barsIn (timeFrame : ℕ) (calls : List Call) : List BarData := calls.filterMap (barOf timeFrame)

/-- The bars that a time frame makes of ticks, the open one included. -/
def candles (timeFrame : ℕ) (ticks : List TickData) : List BarData :=
  (groups (windowOf timeFrame) ticks).map (candle timeFrame)

def inBar (timeFrame : ℕ) (bar part : BarData) : Bool :=
  decide (bar.t ≤ part.t) && decide (part.t < bar.t + timeFrame * 60)

/-! ### The feeders feed -/

theorem dummyLoop_eq_feed (factories : List CandleFactory) (ticks : List TickData) :
    dummyLoop factories ticks = feed factories (ticks.map fun tick => (tick, false)) := by
  induction ticks generalizing factories with
  | nil => rfl
  | cons tick ticks ih =>
    simp only [dummyLoop, feed, List.map_cons, ih]

theorem controlledLoop_eq_feed (lookbackMinutes : ℕ) (factories : List CandleFactory)
    (barCount : ℕ) (ticks : List TickData) :
    ∃ ticks' : List (TickData × Bool), ticks'.map Prod.fst = ticks ∧
      (controlledLoop lookbackMinutes (factories, barCount) ticks).1.1 =
        (feed factories ticks').1 ∧
      (controlledLoop lookbackMinutes (factories, barCount) ticks).2 = (feed factories ticks').2 := by
  induction ticks generalizing factories barCount with
  | nil => exact ⟨[], rfl, rfl, rfl⟩
  | cons tick ticks ih =>
    obtain ⟨ticks', hTicks, hFactories, hCalls⟩ := ih
      (factories.map fun f => (f.putTick tick).1)
      (barCount + (onTick factories tick (isWarmingUp lookbackMinutes barCount)).2.countP
        isMinuteBar)
    refine ⟨(tick, isWarmingUp lookbackMinutes barCount) :: ticks', ?_, ?_, ?_⟩
    · rw [List.map_cons, hTicks]
    · rw [controlledLoop_cons, feed]
      exact hFactories
    · rw [controlledLoop_cons, feed]
      exact congrArg _ hCalls

theorem CandleFactory.putTicks_timeFrame (f : CandleFactory) (ticks : List TickData) :
    (f.putTicks ticks).1.timeFrame = f.timeFrame := by
  induction ticks generalizing f with
  | nil => rfl
  | cons tick ticks ih => exact (ih _).trans (f.putTick_timeFrame tick)

/-! ### What a feeder has passed on -/

@[simp] theorem barsIn_nil (timeFrame : ℕ) : barsIn timeFrame [] = [] := rfl

@[simp] theorem barsIn_append (timeFrame : ℕ) (a b : List Call) :
    barsIn timeFrame (a ++ b) = barsIn timeFrame a ++ barsIn timeFrame b :=
  List.filterMap_append

theorem mem_barsIn {timeFrame : ℕ} {calls : List Call} {bar : BarData} :
    bar ∈ barsIn timeFrame calls ↔ .onBar timeFrame bar ∈ calls := by
  rw [barsIn, List.mem_filterMap]
  constructor
  · rintro ⟨call, hCall, hBar⟩
    cases call with
    | onBar tf b =>
      obtain ⟨rfl, rfl⟩ : tf = timeFrame ∧ b = bar := by
        simpa [barOf] using hBar
      exact hCall
    | onTick tick =>
      cases hBar
  · intro hCall
    exact ⟨_, hCall, by simp [barOf]⟩

theorem barsIn_onTick (timeFrame : ℕ) (factories : List CandleFactory) (tick : TickData)
    (ignoreCallback : Bool) : barsIn timeFrame (onTick factories tick ignoreCallback).2 =
      barsIn timeFrame (barsOf factories tick) := by
  cases ignoreCallback <;> simp [onTick, barsIn, barOf]

theorem barsIn_barsOf {factories : List CandleFactory}
    (hFrames : (factories.map CandleFactory.timeFrame).Nodup) {f : CandleFactory}
    (hf : f ∈ factories) (tick : TickData) :
    barsIn f.timeFrame (barsOf factories tick) = (f.putTick tick).2.toList := by
  induction factories with
  | nil => exact absurd hf List.not_mem_nil
  | cons g factories ih =>
    rw [List.map_cons, List.nodup_cons] at hFrames
    have hSplit : barsOf (g :: factories) tick =
        ((g.putTick tick).2.map (.onBar g.timeFrame)).toList ++ barsOf factories tick := by
      cases hBar : (g.putTick tick).2 <;> simp [barsOf, hBar]
    have hHead : barsIn f.timeFrame ((g.putTick tick).2.map (.onBar g.timeFrame)).toList =
        if g.timeFrame = f.timeFrame then (g.putTick tick).2.toList else [] := by
      by_cases hFrame : g.timeFrame = f.timeFrame <;>
        cases (g.putTick tick).2 <;> simp [barsIn, barOf, hFrame]
    rw [hSplit, barsIn_append, hHead]
    cases List.mem_cons.mp hf with
    | inl hEq =>
      subst hEq
      have hNone : barsIn f.timeFrame (barsOf factories tick) = [] := by
        rw [List.eq_nil_iff_forall_not_mem]
        intro bar hBar
        obtain ⟨f', hf', hFrame, _⟩ := onBar_mem_barsOf.mp (mem_barsIn.mp hBar)
        exact hFrames.1 (List.mem_map.mpr ⟨f', hf', hFrame⟩)
      rw [if_pos rfl, hNone, List.append_nil]
    | inr hf =>
      have hNe : g.timeFrame ≠ f.timeFrame := by
        intro hEq
        exact hFrames.1 (List.mem_map.mpr ⟨f, hf, hEq.symm⟩)
      rw [if_neg hNe, List.nil_append, ih hFrames.2 hf]

theorem feed_factories (factories : List CandleFactory) (ticks : List (TickData × Bool)) :
    (feed factories ticks).1 = factories.map fun f => (f.putTicks (ticks.map Prod.fst)).1 := by
  induction ticks generalizing factories with
  | nil => simp [feed, CandleFactory.putTicks]
  | cons td ticks ih =>
    rw [feed, onTick, ih, List.map_map]
    rfl

theorem barsIn_feed {factories : List CandleFactory}
    (hFrames : (factories.map CandleFactory.timeFrame).Nodup) {f : CandleFactory}
    (hf : f ∈ factories) (ticks : List (TickData × Bool)) :
    barsIn f.timeFrame (feed factories ticks).2 = (f.putTicks (ticks.map Prod.fst)).2 := by
  induction ticks generalizing factories f with
  | nil => rfl
  | cons td ticks ih =>
    have hNext : ((factories.map fun f => (f.putTick td.1).1).map CandleFactory.timeFrame).Nodup := by
      rw [List.map_map]
      rw [List.map_congr_left fun f _ => f.putTick_timeFrame td.1]
      exact hFrames
    have hLater := ih hNext (List.mem_map_of_mem hf)
    rw [CandleFactory.putTick_timeFrame] at hLater
    rw [feed, barsIn_append, barsIn_onTick, barsIn_barsOf hFrames hf]
    exact congrArg _ hLater

theorem feed_cons (factories : List CandleFactory) (td : TickData × Bool)
    (ticks : List (TickData × Bool)) : (feed factories (td :: ticks)).2 =
      (onTick factories td.1 td.2).2 ++
        (feed (factories.map fun f => (f.putTick td.1).1) ticks).2 := rfl

/-- Every call is made while the feeder passes one tick on. -/
theorem feed_split {factories : List CandleFactory} {ticks : List (TickData × Bool)}
    {before after : List Call} {call : Call}
    (h : (feed factories ticks).2 = before ++ call :: after) :
    ∃ earlier td later first second, ticks = earlier ++ td :: later ∧
      (onTick (feed factories earlier).1 td.1 td.2).2 = first ++ call :: second ∧
      before = (feed factories earlier).2 ++ first := by
  induction ticks generalizing factories before with
  | nil => exact absurd h (by simp [feed])
  | cons td ticks ih =>
    rw [feed_cons] at h
    cases List.append_eq_append_iff.mp h with
    | inl hLater =>
      obtain ⟨rest, rfl, hRest⟩ := hLater
      obtain ⟨earlier, td', later, first, second, rfl, hCalls, rfl⟩ := ih hRest
      exact ⟨td :: earlier, td', later, first, second, rfl, hCalls, (List.append_assoc _ _ _).symm⟩
    | inr hHere =>
      obtain ⟨rest, hCalls, hRest⟩ := hHere
      cases rest with
      | nil =>
        rw [List.nil_append] at hRest
        have hLater : (feed (factories.map fun f => (f.putTick td.1).1) ticks).2 =
            [] ++ call :: after := hRest.symm
        obtain ⟨earlier, td', later, first, second, rfl, hCalls', hFirst⟩ := ih hLater
        refine ⟨td :: earlier, td', later, first, second, rfl, hCalls', ?_⟩
        obtain ⟨hNil, hNil'⟩ := List.append_eq_nil_iff.mp hFirst.symm
        rw [feed_cons, hCalls, hNil', hNil]
        simp
      | cons _ rest =>
        obtain ⟨rfl, rfl⟩ := List.cons.inj hRest
        exact ⟨[], td, ticks, before, rest, rfl, hCalls, rfl⟩

theorem feed_concat (factories : List CandleFactory) (ticks : List (TickData × Bool))
    (td : TickData × Bool) : (feed factories (ticks ++ [td])).2 =
      (feed factories ticks).2 ++ (onTick (feed factories ticks).1 td.1 td.2).2 := by
  induction ticks generalizing factories with
  | nil =>
    rw [List.nil_append, feed_cons]
    simp [feed]
  | cons first ticks ih =>
    rw [List.cons_append, feed_cons, feed_cons, ih, List.append_assoc]
    rfl

theorem newFactories_nodup : (newFactories.map CandleFactory.timeFrame).Nodup := by decide

theorem barsIn_fresh {timeFrame : ℕ} (hFrame : timeFrame ∈ timeFrames)
    (ticks : List (TickData × Bool))
    (hPos : ∀ tick ∈ ticks.map Prod.fst, 0 < window timeFrame tick.time) :
    barsIn timeFrame (feed newFactories ticks).2 =
      (candles timeFrame (ticks.map Prod.fst)).dropLast := by
  have hMem : ({ timeFrame } : CandleFactory) ∈ newFactories := List.mem_map_of_mem hFrame
  rw [candles, ← List.map_dropLast, ← putTicks_bars hPos]
  exact barsIn_feed newFactories_nodup hMem ticks

theorem fresh_onBar_mem {timeFrame : ℕ} {ticks : List (TickData × Bool)} {tick : TickData}
    {bar : BarData} (h : .onBar timeFrame bar ∈ barsOf (feed newFactories ticks).1 tick) :
    bar = (({ timeFrame } : CandleFactory).putTicks (ticks.map Prod.fst)).1.bar ∧ 0 < bar.t ∧
      window timeFrame tick.time ≠ bar.t := by
  obtain ⟨f, hf, hFrame, hBar, hPos, hNe⟩ := onBar_mem_barsOf.mp h
  rw [feed_factories, newFactories, List.map_map] at hf
  obtain ⟨tf, _, rfl⟩ := List.mem_map.mp hf
  have hTf : tf = timeFrame := by
    rw [← hFrame]
    exact (CandleFactory.putTicks_timeFrame { timeFrame := tf } _).symm
  subst hTf
  exact ⟨hBar.symm, hPos, hNe⟩

/-! ### The order of the calls for one tick -/

/-- The map of the factories is in the order of the time frames. -/
def Ascending : Call → Call → Prop
  | .onBar timeFrame _, .onBar timeFrame' _ => timeFrame < timeFrame'
  | .onTick _, .onBar _ _ => False
  | _, .onTick _ => True

theorem onTick_ascending {factories : List CandleFactory}
    (h : (factories.map CandleFactory.timeFrame).Pairwise (· < ·)) (tick : TickData)
    (ignoreCallback : Bool) : (onTick factories tick ignoreCallback).2.Pairwise Ascending := by
  have hBars : (barsOf factories tick).Pairwise Ascending := by
    rw [barsOf, List.pairwise_filterMap]
    refine (List.pairwise_map.mp h).imp ?_
    intro f g hLt call hCall call' hCall'
    obtain ⟨_, _, rfl⟩ := Option.map_eq_some_iff.mp hCall
    obtain ⟨_, _, rfl⟩ := Option.map_eq_some_iff.mp hCall'
    exact hLt
  rw [onTick]
  refine List.pairwise_append.mpr ⟨hBars, ?_, ?_⟩
  · split
    · exact List.Pairwise.nil
    · exact List.pairwise_singleton _ _
  · intro call _ call' hCall'
    split at hCall'
    · exact absurd hCall' List.not_mem_nil
    · rw [List.mem_singleton.mp hCall']
      cases call <;> trivial

theorem fresh_ascending (ticks : List (TickData × Bool)) (tick : TickData)
    (ignoreCallback : Bool) :
    (onTick (feed newFactories ticks).1 tick ignoreCallback).2.Pairwise Ascending := by
  apply onTick_ascending
  have hFrames : (feed newFactories ticks).1.map CandleFactory.timeFrame = timeFrames := by
    rw [feed_factories, newFactories, List.map_map, List.map_map]
    exact (List.map_congr_left fun tf _ => CandleFactory.putTicks_timeFrame _ _).trans
      (List.map_id timeFrames)
  rw [hFrames]
  decide

/-! ### Windows of two lengths -/

theorem window_dvd (timeFrame : ℕ) (time : ℤ) : (timeFrame * 60 : ℤ) ∣ window timeFrame time :=
  Dvd.intro_left _ rfl

theorem window_bounds {timeFrame : ℕ} {time : ℤ} (h : 0 < window timeFrame time) :
    window timeFrame time ≤ time.tdiv 1000 ∧
      time.tdiv 1000 < window timeFrame time + timeFrame * 60 := by
  have hFrame : (0 : ℤ) < timeFrame * 60 := by
    cases Nat.eq_zero_or_pos timeFrame with
    | inl hZero => simp [window, hZero] at h
    | inr hPos => omega
  have hSeconds : 0 ≤ time.tdiv 1000 := by
    by_contra hNeg
    have hQuotient : (time.tdiv 1000).tdiv (timeFrame * 60) ≤ 0 :=
      tdiv_nonpos (by omega) hFrame.le
    exact absurd h (not_lt.mpr (mul_nonpos_of_nonpos_of_nonneg hQuotient hFrame.le))
  rw [window, Int.tdiv_eq_ediv_of_nonneg hSeconds]
  constructor
  · exact Int.ediv_mul_le _ hFrame.ne'
  · have hLt := Int.lt_ediv_add_one_mul_self (time.tdiv 1000) hFrame
    rwa [add_mul, one_mul] at hLt

theorem add_le_of_dvd {d a b : ℤ} (ha : d ∣ a) (hb : d ∣ b) (h : a < b) : a + d ≤ b := by
  have hLe : d ≤ b - a := Int.le_of_dvd (by omega) (Int.dvd_sub hb ha)
  omega

section Frames

variable {fine coarse : ℕ} (hDvd : fine ∣ coarse)

include hDvd

theorem window_coarse_le {time : ℤ} (hFine : 0 < window fine time)
    (hCoarse : 0 < window coarse time) : window coarse time ≤ window fine time := by
  by_contra hLt
  have hMultiple : (fine * 60 : ℤ) ∣ window coarse time :=
    (mul_dvd_mul_right (Int.natCast_dvd_natCast.mpr hDvd) 60).trans (window_dvd coarse time)
  have hNext := add_le_of_dvd (window_dvd fine time) hMultiple (not_le.mp hLt)
  have hUnder := (window_bounds hCoarse).1
  have hOver := (window_bounds hFine).2
  omega

/-- A time is in the window of a coarse frame when the start of its fine window is. -/
theorem window_eq_iff {x y : ℤ} (hFine : 0 < window fine x) (hCoarse : 0 < window coarse x) :
    window coarse x = window coarse y ↔
      window coarse y ≤ window fine x ∧ window fine x < window coarse y + coarse * 60 := by
  have hLe := window_coarse_le hDvd hFine hCoarse
  have hFineLe := (window_bounds hFine).1
  have hBounds := window_bounds hCoarse
  constructor
  · intro hEq
    constructor <;> omega
  · rintro ⟨hFrom, hTo⟩
    rcases lt_trichotomy (window coarse x) (window coarse y) with hLt | hEq | hGt
    · have := add_le_of_dvd (window_dvd coarse x) (window_dvd coarse y) hLt
      omega
    · exact hEq
    · have := add_le_of_dvd (window_dvd coarse y) (window_dvd coarse x) hGt
      omega

theorem window_ne_of_coarse_ne {x y : ℤ} (hx : 0 < window fine x ∧ 0 < window coarse x)
    (hy : 0 < window fine y ∧ 0 < window coarse y) (hNe : window coarse x ≠ window coarse y) :
    window fine x ≠ window fine y := by
  intro hEq
  apply hNe
  apply (window_eq_iff hDvd hx.1 hx.2).mpr
  rw [hEq]
  exact (window_eq_iff hDvd hy.1 hy.2).mp rfl

variable {ticks : List TickData}
  (hPos : ∀ tick ∈ ticks, 0 < window fine tick.time ∧ 0 < window coarse tick.time)

include hPos

theorem inBar_candle {bar : BarData} {time : ℤ} (hBar : bar.t = window coarse time)
    {g : List TickData} (hg : g ∈ groups (windowOf fine) ticks) {x : TickData} (hx : x ∈ g) :
    inBar coarse bar (candle fine g) = true ↔ window coarse x.time = window coarse time := by
  have hxPos := hPos x (mem_of_mem hg hx)
  rw [window_eq_iff hDvd hxPos.1 hxPos.2, inBar, Bool.and_eq_true, decide_eq_true_iff,
    decide_eq_true_iff, hBar, candle_t hg hx]

theorem filter_candles_eq_self {bar : BarData} {time : ℤ} (hBar : bar.t = window coarse time)
    (h : ∀ x ∈ ticks, window coarse x.time = window coarse time) :
    (candles fine ticks).filter (inBar coarse bar) = candles fine ticks := by
  rw [List.filter_eq_self]
  intro part hPart
  obtain ⟨g, hg, rfl⟩ := List.mem_map.mp hPart
  obtain ⟨x, hx⟩ := List.exists_mem_of_ne_nil g (ne_nil_of_mem hg)
  exact (inBar_candle hDvd hPos hBar hg hx).mpr (h x (mem_of_mem hg hx))

theorem filter_candles_eq_nil {bar : BarData} {time : ℤ} (hBar : bar.t = window coarse time)
    (h : ∀ x ∈ ticks, window coarse x.time ≠ window coarse time) :
    (candles fine ticks).filter (inBar coarse bar) = [] := by
  rw [List.filter_eq_nil_iff]
  intro part hPart hIn
  obtain ⟨g, hg, rfl⟩ := List.mem_map.mp hPart
  obtain ⟨x, hx⟩ := List.exists_mem_of_ne_nil g (ne_nil_of_mem hg)
  exact h x (mem_of_mem hg hx) ((inBar_candle hDvd hPos hBar hg hx).mp hIn)

end Frames

theorem merge_tickBars (t : ℤ) (timeFrame timeFrame' : ℕ) (ticks : List TickData) :
    merge t (ticks.map (tickBar timeFrame)) = merge t (ticks.map (tickBar timeFrame')) := by
  simp only [merge, List.map_map]
  rfl

/-- The bar of a coarse frame is the merge of the bars that a fine one makes of its ticks. -/
theorem merge_candles (fine coarse : ℕ) (ticks : List TickData) :
    merge (candle coarse ticks).t (candles fine ticks) = candle coarse ticks := by
  have hParts : candles fine ticks =
      ((groups (windowOf fine) ticks).map (List.map (tickBar fine))).map fun bars =>
        merge ((bars.map BarData.t).headD 0) bars := by
    rw [candles, List.map_map]
    apply List.map_congr_left
    intro g _
    rw [candle, Function.comp_apply, startOf, List.map_map]
    rfl
  rw [hParts, merge_flatten]
  · rw [← List.map_flatten, flatten_groups, merge_tickBars _ fine coarse]
    rfl
  · intro bars hBars
    obtain ⟨g, hg, rfl⟩ := List.mem_map.mp hBars
    exact mt List.map_eq_nil_iff.mp (ne_nil_of_mem hg)

/-! ### Bars across the frames -/

theorem candles_append {timeFrame : ℕ} {l m : List TickData}
    (h : ∀ a ∈ l, ∀ b ∈ m, window timeFrame a.time ≠ window timeFrame b.time) :
    candles timeFrame (l ++ m) = candles timeFrame l ++ candles timeFrame m := by
  rw [candles, groups_append (windowOf timeFrame) h, List.map_append]
  rfl

theorem candles_ne_nil (timeFrame : ℕ) {ticks : List TickData} (h : ticks ≠ []) :
    candles timeFrame ticks ≠ [] := by
  intro hNil
  exact h (groups_eq_nil_iff.mp (List.map_eq_nil_iff.mp hNil))

/-- Where a coarse bar is passed on, the ticks are those before it, those behind it, and those from
the tick that completes it on. -/
theorem onBar_ticks {coarse : ℕ} {earlier : List (TickData × Bool)} {td : TickData}
    {later : List TickData} {bar : BarData}
    (hSorted : (earlier.map Prod.fst ++ td :: later).Pairwise fun a b => a.time ≤ b.time)
    (hPos : ∀ tick ∈ earlier.map Prod.fst, 0 < window coarse tick.time)
    (h : .onBar coarse bar ∈ barsOf (feed newFactories earlier).1 td) :
    ∃ past g x, earlier.map Prod.fst = past ++ g ∧ x ∈ g ∧ bar = candle coarse g ∧
      bar.t = window coarse x.time ∧
      (∀ a ∈ past, window coarse a.time < window coarse x.time) ∧
      (∀ a ∈ g, window coarse a.time = window coarse x.time) ∧
      ∀ a ∈ td :: later, window coarse x.time < window coarse a.time := by
  obtain ⟨hBar, hOpen, hNe⟩ := fresh_onBar_mem h
  generalize earlier.map Prod.fst = ticks at hBar hSorted hPos
  have hTicks : ticks ≠ [] := by
    rintro rfl
    rw [hBar] at hOpen
    exact absurd hOpen (lt_irrefl 0)
  obtain ⟨init, g, hGroups⟩ := groups_eq_concat (windowOf coarse) hTicks
  obtain ⟨hSplit, _⟩ := groups_init hGroups
  have hMem : g ∈ groups (windowOf coarse) ticks := by simp [hGroups]
  obtain ⟨x, hx⟩ := List.exists_mem_of_ne_nil g (ne_nil_of_mem hMem)
  rw [putTicks_fresh hPos hGroups] at hBar
  have hTime : bar.t = window coarse x.time := hBar ▸ candle_t hMem hx
  obtain ⟨hInit, hRest, hLe⟩ := List.pairwise_append.mp hSorted
  have hBefore := groups_pairwise_lt (windowOf_pairwise coarse hInit)
  rw [hGroups] at hBefore
  refine ⟨init.flatten, g, x, hSplit, hx, hBar, hTime, ?_, ?_, ?_⟩
  · intro a ha
    obtain ⟨m, hm, ham⟩ := List.mem_flatten.mp ha
    exact (List.pairwise_append.mp hBefore).2.2 m hm g List.mem_cons_self a ham x hx
  · intro a ha
    exact key_eq hMem ha hx
  · intro a ha
    have hFirst : window coarse x.time < window coarse td.time := by
      have hxTd := window_mono coarse (hLe x (mem_of_mem hMem hx) td List.mem_cons_self)
      omega
    cases List.mem_cons.mp ha with
    | inl hEq =>
      rw [hEq]
      exact hFirst
    | inr ha =>
      exact hFirst.trans_le (window_mono coarse ((List.pairwise_cons.mp hRest).1 a ha))

/-- At a call that no bar of the time frame can follow, all bars the tick closes have been passed
on. -/
theorem barsIn_before {timeFrame : ℕ} (hFrame : timeFrame ∈ timeFrames)
    {earlier : List (TickData × Bool)} {td : TickData × Bool}
    (hPos : ∀ tick ∈ (earlier ++ [td]).map Prod.fst, 0 < window timeFrame tick.time)
    {first second : List Call} {call : Call}
    (hCalls : (onTick (feed newFactories earlier).1 td.1 td.2).2 = first ++ call :: second)
    (hLast : ∀ bar, call ≠ .onBar timeFrame bar ∧ ¬Ascending call (.onBar timeFrame bar)) :
    barsIn timeFrame ((feed newFactories earlier).2 ++ first) =
      (candles timeFrame (earlier.map Prod.fst ++ [td.1])).dropLast := by
  have hNone : barsIn timeFrame (call :: second) = [] := by
    rw [List.eq_nil_iff_forall_not_mem]
    intro bar hBar
    have hOrder := fresh_ascending earlier td.1 td.2
    rw [hCalls] at hOrder
    cases List.mem_cons.mp (mem_barsIn.mp hBar) with
    | inl hEq =>
      exact (hLast bar).1 hEq.symm
    | inr hMem =>
      exact (hLast bar).2
        ((List.pairwise_cons.mp (List.pairwise_append.mp hOrder).2.1).1 _ hMem)
  have hAll := barsIn_fresh hFrame _ hPos
  rw [feed_concat, hCalls, ← List.append_assoc, barsIn_append, hNone, List.append_nil,
    List.map_append, List.map_singleton] at hAll
  exact hAll

section Parts

variable {fine coarse : ℕ} (hDvd : fine ∣ coarse) {past g rest : List TickData} {time : ℤ}
  (hPos : ∀ a ∈ past ++ g ++ rest, 0 < window fine a.time ∧ 0 < window coarse a.time)
  (hPast : ∀ a ∈ past, window coarse a.time < window coarse time)
  (hGroup : ∀ a ∈ g, window coarse a.time = window coarse time)
  (hRest : ∀ a ∈ rest, window coarse time < window coarse a.time)

include hDvd hPos hPast hGroup

theorem past_apart : ∀ a ∈ past, ∀ b ∈ g, window fine a.time ≠ window fine b.time := by
  intro a ha b hb
  exact window_ne_of_coarse_ne hDvd (hPos a (by simp [ha])) (hPos b (by simp [hb]))
    (hGroup b hb ▸ (hPast a ha).ne)

include hRest

theorem rest_apart : ∀ a ∈ past ++ g, ∀ b ∈ rest, window fine a.time ≠ window fine b.time := by
  intro a ha b hb
  have hLe : window coarse a.time ≤ window coarse time := by
    cases List.mem_append.mp ha with
    | inl ha => exact (hPast a ha).le
    | inr ha => exact (hGroup a ha).le
  exact window_ne_of_coarse_ne hDvd (hPos a (List.mem_append_left _ ha))
    (hPos b (List.mem_append_right _ hb)) (hLe.trans_lt (hRest b hb)).ne

/-- Of all the fine bars those of the group are in the coarse bar, also while the last is open. -/
theorem filter_parts {bar : BarData} (hBar : bar.t = window coarse time) (hSome : rest ≠ []) :
    (candles fine past ++ candles fine g).filter (inBar coarse bar) = candles fine g ∧
      ((candles fine (past ++ g ++ rest)).dropLast).filter (inBar coarse bar) =
        candles fine g := by
  have hFilterPast : (candles fine past).filter (inBar coarse bar) = [] :=
    filter_candles_eq_nil hDvd (fun a ha => hPos a (by simp [ha])) hBar
      fun a ha => (hPast a ha).ne
  have hFilter : (candles fine g).filter (inBar coarse bar) = candles fine g :=
    filter_candles_eq_self hDvd (fun a ha => hPos a (by simp [ha])) hBar hGroup
  have hFilterRest : (candles fine rest).filter (inBar coarse bar) = [] :=
    filter_candles_eq_nil hDvd (fun a ha => hPos a (List.mem_append_right _ ha)) hBar
      fun a ha => (hRest a ha).ne'
  constructor
  · rw [List.filter_append, hFilterPast, hFilter, List.nil_append]
  · have hSub := ((List.dropLast_sublist (candles fine rest)).filter (inBar coarse bar))
    rw [hFilterRest] at hSub
    rw [candles_append (rest_apart hDvd hPos hPast hGroup hRest),
      candles_append (past_apart hDvd hPos hPast hGroup),
      List.dropLast_append_of_ne_nil (candles_ne_nil fine hSome), List.filter_append,
      List.filter_append, hFilterPast, hFilter, List.sublist_nil.mp hSub, List.nil_append,
      List.append_nil]

end Parts

theorem parts_of_onBar {fine coarse : ℕ} (hFine : fine ∈ timeFrames) (hCoarse : coarse ∈ timeFrames)
    (hLt : fine < coarse) (hDvd : fine ∣ coarse) {ticks : List (TickData × Bool)}
    (hSorted : (ticks.map Prod.fst).Pairwise fun a b => a.time ≤ b.time)
    (hPos : ∀ tick ∈ ticks.map Prod.fst, ∀ timeFrame ∈ timeFrames, 0 < window timeFrame tick.time)
    {before after : List Call} {bar : BarData}
    (h : (feed newFactories ticks).2 = before ++ .onBar coarse bar :: after) :
    (barsIn fine before).filter (inBar coarse bar) ≠ [] ∧
      bar = merge bar.t ((barsIn fine before).filter (inBar coarse bar)) ∧
      (barsIn fine (feed newFactories ticks).2).filter (inBar coarse bar) =
        (barsIn fine before).filter (inBar coarse bar) := by
  obtain ⟨earlier, td, later, first, second, rfl, hCalls, rfl⟩ := feed_split h
  have hAll : (earlier ++ td :: later).map Prod.fst =
      earlier.map Prod.fst ++ td.1 :: later.map Prod.fst := by simp
  rw [hAll] at hSorted hPos
  have hMem : .onBar coarse bar ∈ barsOf (feed newFactories earlier).1 td.1 := by
    rw [← mem_barsIn, ← barsIn_onTick coarse _ td.1 td.2, mem_barsIn, hCalls]
    simp
  obtain ⟨past, g, x, hSplit, hx, hBar, hTime, hPast, hGroup, hRest⟩ :=
    onBar_ticks hSorted (fun tick hTick => hPos tick (by simp [hTick]) coarse hCoarse) hMem
  rw [hSplit] at hSorted hPos
  have hBoth : ∀ a ∈ past ++ g ++ td.1 :: later.map Prod.fst,
      0 < window fine a.time ∧ 0 < window coarse a.time :=
    fun a ha => ⟨hPos a ha fine hFine, hPos a ha coarse hCoarse⟩
  have hParts : barsIn fine ((feed newFactories earlier).2 ++ first) =
      candles fine past ++ candles fine g := by
    have hEarlier : ∀ tick ∈ (earlier ++ [td]).map Prod.fst, 0 < window fine tick.time := by
      intro tick hTick
      rw [List.map_append, hSplit, List.map_singleton] at hTick
      refine (hBoth tick ?_).1
      simp only [List.mem_append, List.mem_cons] at hTick ⊢
      tauto
    have hApart := rest_apart hDvd hBoth hPast hGroup hRest
    have hLast : ∀ bar', Call.onBar coarse bar ≠ .onBar fine bar' ∧
        ¬Ascending (.onBar coarse bar) (.onBar fine bar') :=
      fun bar' => ⟨fun hEq => hLt.ne (Call.onBar.inj hEq).1.symm, hLt.asymm⟩
    rw [barsIn_before hFine hEarlier hCalls hLast, hSplit,
      candles_append fun a ha b hb => hApart a ha b (by simp_all),
      candles_append (past_apart hDvd hBoth hPast hGroup)]
    exact List.dropLast_concat
  obtain ⟨hNow, hLater⟩ := filter_parts hDvd hBoth hPast hGroup hRest hTime (List.cons_ne_nil _ _)
  rw [hParts, hNow]
  refine ⟨candles_ne_nil fine (List.ne_nil_of_mem hx), ?_, ?_⟩
  · rw [hBar]
    exact (merge_candles fine coarse g).symm
  · rw [barsIn_fresh hFine _ fun tick hTick => (hBoth tick (by rwa [hAll, hSplit] at hTick)).1, hAll,
      hSplit, hLater]

/-- The groups that a last tick has closed. -/
theorem groups_closed (timeFrame : ℕ) {past later : List TickData} {tick : TickData}
    (hSorted : (past ++ tick :: later).Pairwise fun a b => a.time ≤ b.time) :
    ∃ init g, groups (windowOf timeFrame) (past ++ [tick]) = init ++ [g] ∧
      ∀ g' ∈ groups (windowOf timeFrame) (past ++ tick :: later), ∀ x ∈ g',
        window timeFrame x.time < window timeFrame tick.time → g' ∈ init := by
  have hConcat : past ++ tick :: later = past ++ [tick] ++ later := by simp
  rw [hConcat] at hSorted ⊢
  obtain ⟨hInit, _, hLe⟩ := List.pairwise_append.mp hSorted
  obtain ⟨init, g, hGroups⟩ := groups_eq_concat (windowOf timeFrame)
    (List.append_ne_nil_of_right_ne_nil past (List.cons_ne_nil tick []))
  obtain ⟨hSplit, hClosed⟩ := groups_init hGroups
  have hMem : g ∈ groups (windowOf timeFrame) (past ++ [tick]) := by simp [hGroups]
  have hTick : tick ∈ g := by
    obtain ⟨front, last, rfl⟩ := (List.eq_nil_or_concat' g).resolve_left (ne_nil_of_mem hMem)
    rw [← List.append_assoc] at hSplit
    rw [(List.cons.inj (List.append_inj' hSplit rfl).2).1]
    simp
  have hBefore := groups_pairwise_lt (windowOf_pairwise timeFrame hInit)
  rw [hGroups] at hBefore
  have hPast : ∀ a ∈ init.flatten, window timeFrame a.time < window timeFrame tick.time := by
    intro a ha
    obtain ⟨m, hm, ham⟩ := List.mem_flatten.mp ha
    exact (List.pairwise_append.mp hBefore).2.2 m hm g List.mem_cons_self a ham tick hTick
  have hPresent : ∀ a ∈ g ++ later, window timeFrame tick.time ≤ window timeFrame a.time := by
    intro a ha
    cases List.mem_append.mp ha with
    | inl ha =>
      exact (key_eq hMem hTick ha).le
    | inr ha =>
      exact window_mono timeFrame (hLe tick (by simp) a ha)
  refine ⟨init, g, hGroups, ?_⟩
  intro g' hg' x hx hLt
  rw [hSplit, List.append_assoc, groups_append (windowOf timeFrame) fun a ha b hb =>
    ((hPast a ha).trans_le (hPresent b hb)).ne, hClosed] at hg'
  cases List.mem_append.mp hg' with
  | inl hg' =>
    exact hg'
  | inr hg' =>
    exact absurd hLt (not_lt.mpr (hPresent x (mem_of_mem hg' hx)))

theorem onTick_mem {factories : List CandleFactory} {td tick : TickData} {ignoreCallback : Bool}
    (h : .onTick tick ∈ (onTick factories td ignoreCallback).2) : tick = td := by
  rw [onTick] at h
  cases List.mem_append.mp h with
  | inl h =>
    obtain ⟨f, _, hCall⟩ := List.mem_filterMap.mp h
    obtain ⟨_, _, hEq⟩ := Option.map_eq_some_iff.mp hCall
    cases hEq
  | inr h =>
    split at h
    · exact absurd h List.not_mem_nil
    · exact Call.onTick.inj (List.mem_singleton.mp h)

theorem onBar_mem_before {timeFrame : ℕ} (hFrame : timeFrame ∈ timeFrames)
    {ticks : List (TickData × Bool)}
    (hSorted : (ticks.map Prod.fst).Pairwise fun a b => a.time ≤ b.time)
    (hPos : ∀ tick ∈ ticks.map Prod.fst, 0 < window timeFrame tick.time)
    {before after : List Call} {tick : TickData}
    (h : (feed newFactories ticks).2 = before ++ .onTick tick :: after) {bar : BarData}
    (hBar : bar ∈ candles timeFrame (ticks.map Prod.fst))
    (hEnd : bar.t + timeFrame * 60 ≤ window timeFrame tick.time) :
    .onBar timeFrame bar ∈ before := by
  obtain ⟨earlier, td, later, first, second, rfl, hCalls, rfl⟩ := feed_split h
  have hTick : tick = td.1 := onTick_mem (hCalls ▸ List.mem_append_right first List.mem_cons_self)
  subst hTick
  have hEarlier : ∀ tick ∈ (earlier ++ [td]).map Prod.fst, 0 < window timeFrame tick.time := by
    intro tick hTick
    apply hPos tick
    simp only [List.map_append, List.map_cons, List.map_nil, List.mem_append, List.mem_cons,
      List.not_mem_nil, or_false] at hTick ⊢
    tauto
  have hAll := barsIn_before hFrame hEarlier hCalls fun bar' => ⟨Call.noConfusion, fun hNot => hNot⟩
  rw [List.map_append, List.map_cons] at hSorted hBar
  obtain ⟨init, g, hGroups, hClosed⟩ := groups_closed timeFrame hSorted
  obtain ⟨g', hg', rfl⟩ := List.mem_map.mp hBar
  obtain ⟨x, hx⟩ := List.exists_mem_of_ne_nil g' (ne_nil_of_mem hg')
  have hLt : window timeFrame x.time < window timeFrame td.1.time := by
    have hx' := hPos x (by
      rw [List.map_append, List.map_cons]
      exact mem_of_mem hg' hx)
    have hBounds := window_bounds hx'
    rw [candle_t hg' hx] at hEnd
    omega
  rw [← mem_barsIn, hAll, candles, hGroups, List.map_append, List.map_singleton,
    List.dropLast_concat]
  exact List.mem_map_of_mem (hClosed g' hg' x hx hLt)

/-- The frames of a fresh feeder agree: a bar of a frame is the merge of the bars of a frame
that divides it, which have all been passed on before, and the bars that a tick closes are
passed on before the tick. -/
theorem time_frames_agree (ticks : List (TickData × Bool))
    (hSorted : (ticks.map Prod.fst).Pairwise fun a b => a.time ≤ b.time)
    (hPos : ∀ tick ∈ ticks.map Prod.fst, ∀ timeFrame ∈ timeFrames,
      0 < window timeFrame tick.time) :
    let calls := (feed newFactories ticks).2
    (∀ fine ∈ timeFrames, ∀ coarse ∈ timeFrames, fine < coarse → fine ∣ coarse →
      ∀ before bar after, calls = before ++ .onBar coarse bar :: after →
        let parts := (barsIn fine before).filter (inBar coarse bar)
        parts ≠ [] ∧ bar = merge bar.t parts ∧
          (barsIn fine calls).filter (inBar coarse bar) = parts) ∧
      ∀ before tick after, calls = before ++ .onTick tick :: after →
        ∀ timeFrame ∈ timeFrames, ∀ bar ∈ candles timeFrame (ticks.map Prod.fst),
          bar.t + timeFrame * 60 ≤ window timeFrame tick.time → .onBar timeFrame bar ∈ before := by
  intro calls
  constructor
  · intro fine hFine coarse hCoarse hLt hDvd before bar after hCalls
    exact parts_of_onBar hFine hCoarse hLt hDvd hSorted hPos hCalls
  · intro before tick after hCalls timeFrame hFrame bar hBar hEnd
    exact onBar_mem_before hFrame hSorted (fun tick hTick => hPos tick hTick timeFrame hFrame)
      hCalls hBar hEnd

theorem five_minutes_of_two :
    let ticks : List (TickData × Bool) := [(⟨1, 2, 2592000000⟩, false),
      (⟨4, 5, 2592060000⟩, true), (⟨3, 4, 2592061000⟩, false), (⟨2, 3, 2592300000⟩, false)]
    let calls := (feed newFactories ticks).2
    (.onBar 5 ⟨1, 4, 1, 3, 2592000⟩ ∈ calls ∧
      barsIn 1 calls = [⟨1, 1, 1, 1, 2592000⟩, ⟨4, 4, 3, 3, 2592060⟩]) ∧
      (∀ fine ∈ timeFrames, ∀ coarse ∈ timeFrames, fine < coarse → fine ∣ coarse →
        ∀ before bar after, calls = before ++ .onBar coarse bar :: after →
          let parts := (barsIn fine before).filter (inBar coarse bar)
          parts ≠ [] ∧ bar = merge bar.t parts ∧
            (barsIn fine calls).filter (inBar coarse bar) = parts) ∧
      ∀ before tick after, calls = before ++ .onTick tick :: after →
        ∀ timeFrame ∈ timeFrames, ∀ bar ∈ candles timeFrame (ticks.map Prod.fst),
          bar.t + timeFrame * 60 ≤ window timeFrame tick.time → .onBar timeFrame bar ∈ before :=
  ⟨by decide +kernel, time_frames_agree [(⟨1, 2, 2592000000⟩, false),
    (⟨4, 5, 2592060000⟩, true), (⟨3, 4, 2592061000⟩, false), (⟨2, 3, 2592300000⟩, false)]
    (by decide) (by decide)⟩

end Fxquant.Feeder
