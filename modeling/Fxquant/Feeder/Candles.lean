import Fxquant.Feeder.Feeders
import Fxquant.Library.Grouping

/-!
# Candles as aggregates

What the candles of a factory are meant to be: the ticks fall into maximal groups of one window,
and a group makes one bar. A factory that starts fresh carries the bar of the group its last
tick belongs to, and has passed on the bars of the groups before it.
-/

namespace Fxquant.Feeder

open Grouping

/-- The bars of a time that belong together, as one. -/
def merge (t : ℤ) (bars : List BarData) : BarData :=
  { o := (bars.map BarData.o).headD 0
    h := (bars.map BarData.h).max?.getD 0
    l := (bars.map BarData.l).min?.getD 0
    c := (bars.map BarData.c).getLastD 0
    t := t }

def tickBar (timeFrame : ℕ) (tick : TickData) : BarData :=
  ⟨tick.bid, tick.bid, tick.bid, tick.bid, window timeFrame tick.time⟩

def windowOf (timeFrame : ℕ) (tick : TickData) : ℤ := window timeFrame tick.time

def startOf (timeFrame : ℕ) (group : List TickData) : ℤ :=
  (group.map (windowOf timeFrame)).headD 0

def candle (timeFrame : ℕ) (group : List TickData) : BarData :=
  merge (startOf timeFrame group) (group.map (tickBar timeFrame))

def CandleFactory.putTicks : CandleFactory → List TickData → CandleFactory × List BarData
  | f, [] => (f, [])
  | f, tick :: ticks =>
    let (f, bar) := f.putTick tick
    let (f, later) := f.putTicks ticks
    (f, bar.toList ++ later)

/-! ### Merging -/

theorem merge_concat (t : ℤ) {bars : List BarData} (h : bars ≠ []) (bar : BarData) :
    merge t (bars ++ [bar]) =
      ⟨(merge t bars).o, max (merge t bars).h bar.h, min (merge t bars).l bar.l, bar.c, t⟩ := by
  cases bars with
  | nil => exact absurd rfl h
  | cons first rest =>
    simp only [merge, List.map_append, List.map_cons, List.map_nil, List.cons_append,
      List.max?_cons', List.min?_cons', List.foldl_append, List.foldl_cons, List.foldl_nil,
      Option.getD_some, List.headD_cons, List.getLastD_eq_getLast?]
    rw [← List.cons_append, List.getLast?_concat]
    rfl

theorem merge_append (t s : ℤ) {a b : List BarData} (ha : a ≠ []) (hb : b ≠ []) :
    merge t (a ++ b) = merge t (a ++ [merge s b]) := by
  induction b using List.reverseRecOn with
  | nil => exact absurd rfl hb
  | append_singleton b bar ih =>
    cases eq_or_ne b [] with
    | inl hNil =>
      rw [hNil, List.nil_append, merge_concat t ha, merge_concat t ha]
      rfl
    | inr hNe =>
      rw [← List.append_assoc, merge_concat t (List.append_ne_nil_of_left_ne_nil ha b), ih hNe,
        merge_concat t ha, merge_concat t ha, merge_concat s hNe, max_assoc, min_assoc]

/-- Merging in two stages. -/
theorem merge_flatten (t : ℤ) (s : List BarData → ℤ) {gs : List (List BarData)}
    (h : ∀ g ∈ gs, g ≠ []) : merge t (gs.map fun g => merge (s g) g) = merge t gs.flatten := by
  induction gs using List.reverseRecOn with
  | nil => rfl
  | append_singleton gs g ih =>
    have hg : g ≠ [] := h g (by simp)
    cases eq_or_ne gs [] with
    | inl hNil =>
      simp [hNil, merge]
    | inr hNe =>
      have hFlat : gs.flatten ≠ [] := by
        obtain ⟨first, hFirst⟩ := List.exists_mem_of_ne_nil gs hNe
        exact List.flatten_ne_nil_iff.mpr ⟨first, hFirst, h first (List.mem_append_left _ hFirst)⟩
      have hInit := ih fun g' hg' => h g' (List.mem_append_left _ hg')
      rw [List.map_append, List.map_singleton, merge_concat t (mt List.map_eq_nil_iff.mp hNe),
        hInit, List.flatten_append, List.flatten_singleton, merge_append t (s g) hFlat hg,
        merge_concat t hFlat]

theorem candle_concat (timeFrame : ℕ) {group : List TickData} (h : group ≠ []) (tick : TickData) :
    candle timeFrame (group ++ [tick]) =
      { candle timeFrame group with
        h := max (candle timeFrame group).h tick.bid
        l := min (candle timeFrame group).l tick.bid
        c := tick.bid } := by
  obtain ⟨first, rest, rfl⟩ := List.exists_cons_of_ne_nil h
  rw [candle, List.map_append, List.map_singleton, merge_concat _ (by simp)]
  rfl

theorem candle_l_le_h (timeFrame : ℕ) {group : List TickData} (h : group ≠ []) :
    (candle timeFrame group).l ≤ (candle timeFrame group).h := by
  induction group using List.reverseRecOn with
  | nil => exact absurd rfl h
  | append_singleton group tick ih =>
    cases eq_or_ne group [] with
    | inl hNil =>
      rw [hNil]
      exact le_rfl
    | inr hNe =>
      rw [candle_concat timeFrame hNe]
      exact (min_le_right _ _).trans (le_max_right _ _)

theorem candle_t {timeFrame : ℕ} {ticks group : List TickData}
    (h : group ∈ groups (windowOf timeFrame) ticks) {tick : TickData} (hTick : tick ∈ group) :
    (candle timeFrame group).t = window timeFrame tick.time := by
  cases group with
  | nil => exact absurd hTick List.not_mem_nil
  | cons first rest => exact key_eq h List.mem_cons_self hTick

/-! ### A factory -/

theorem CandleFactory.putTicks_concat (f : CandleFactory) (ticks : List TickData)
    (tick : TickData) : f.putTicks (ticks ++ [tick]) =
      (((f.putTicks ticks).1.putTick tick).1,
        (f.putTicks ticks).2 ++ ((f.putTicks ticks).1.putTick tick).2.toList) := by
  induction ticks generalizing f with
  | nil =>
    simp [putTicks]
  | cons first ticks ih =>
    simp [putTicks, ih]

theorem CandleFactory.putTick_new {f : CandleFactory} {tick : TickData}
    (h : window f.timeFrame tick.time ≠ f.bar.t) :
    f.putTick tick =
      (⟨f.timeFrame, tickBar f.timeFrame tick⟩, if 0 < f.bar.t then some f.bar else none) := by
  rw [putTick]
  exact if_pos h

/-- The `else if` between the high and the low misses no tick: a bid over the high is not under
the low. -/
theorem CandleFactory.putTick_same {f : CandleFactory} {tick : TickData}
    (h : window f.timeFrame tick.time = f.bar.t) (hBar : f.bar.l ≤ f.bar.h) :
    f.putTick tick = (⟨f.timeFrame, { f.bar with
      h := max f.bar.h tick.bid, l := min f.bar.l tick.bid, c := tick.bid }⟩, none) := by
  have hHigh : (if f.bar.h < tick.bid then tick.bid else f.bar.h) = max f.bar.h tick.bid := by
    grind
  have hLow : (if f.bar.h < tick.bid then f.bar.l
      else if tick.bid < f.bar.l then tick.bid else f.bar.l) = min f.bar.l tick.bid := by
    grind
  rw [putTick]
  simp only [ne_eq, h, not_true_eq_false, if_false, hHigh, hLow]

/-- One more tick for a factory that carries the bar of a group: either the group grows, or its
bar is passed on. -/
theorem CandleFactory.putTick_candle {timeFrame : ℕ} {group : List TickData} (h : group ≠ [])
    (hOpen : 0 < (candle timeFrame group).t) (tick : TickData) :
    (⟨timeFrame, candle timeFrame group⟩ : CandleFactory).putTick tick =
      if (candle timeFrame group).t = windowOf timeFrame tick then
        (⟨timeFrame, candle timeFrame (group ++ [tick])⟩, none)
      else (⟨timeFrame, candle timeFrame [tick]⟩, some (candle timeFrame group)) := by
  split
  · rename_i hSame
    rw [putTick_same (f := ⟨timeFrame, candle timeFrame group⟩) hSame.symm
      (candle_l_le_h timeFrame h), candle_concat timeFrame h]
  · rename_i hNew
    rw [putTick_new (f := ⟨timeFrame, candle timeFrame group⟩) fun hEq => hNew hEq.symm,
      if_pos hOpen]
    rfl

theorem putTicks_fresh {timeFrame : ℕ} {ticks : List TickData}
    (hPos : ∀ tick ∈ ticks, 0 < window timeFrame tick.time) {init : List (List TickData)}
    {g : List TickData} (hGroups : groups (windowOf timeFrame) ticks = init ++ [g]) :
    ({ timeFrame } : CandleFactory).putTicks ticks =
      (⟨timeFrame, candle timeFrame g⟩, init.map (candle timeFrame)) := by
  induction ticks using List.reverseRecOn generalizing init g with
  | nil => simp at hGroups
  | append_singleton ticks tick ih =>
    have hTick : 0 < window timeFrame tick.time := hPos tick (by simp)
    cases eq_or_ne ticks [] with
    | inl hNil =>
      rw [hNil, List.nil_append, groups_singleton, ← List.nil_append [[tick]]] at hGroups
      obtain ⟨rfl, hg⟩ := List.append_inj' hGroups rfl
      rw [hNil, ← (List.cons.inj hg).1, List.nil_append, CandleFactory.putTicks,
        CandleFactory.putTick_new (f := { timeFrame }) hTick.ne']
      rfl
    | inr hNe =>
      obtain ⟨init', g', hBefore⟩ := groups_eq_concat (windowOf timeFrame) hNe
      have hMem : g' ∈ groups (windowOf timeFrame) ticks := by simp [hBefore]
      obtain ⟨b, hb⟩ := List.exists_mem_of_ne_nil g' (ne_nil_of_mem hMem)
      have hTime : (candle timeFrame g').t = windowOf timeFrame b := candle_t hMem hb
      have hOpen : 0 < (candle timeFrame g').t :=
        hTime ▸ hPos b (List.mem_append_left _ (mem_of_mem hMem hb))
      rw [CandleFactory.putTicks_concat,
        ih (fun x hx => hPos x (List.mem_append_left _ hx)) hBefore,
        CandleFactory.putTick_candle (ne_nil_of_mem hMem) hOpen, hTime]
      by_cases hKey : windowOf timeFrame b = windowOf timeFrame tick
      · rw [groups_concat_of_eq hBefore hb hKey] at hGroups
        obtain ⟨rfl, hg⟩ := List.append_inj' hGroups rfl
        rw [if_pos hKey, ← (List.cons.inj hg).1]
        simp
      · rw [groups_concat_of_ne hBefore hb hKey] at hGroups
        obtain ⟨rfl, hg⟩ := List.append_inj' hGroups rfl
        rw [if_neg hKey, ← (List.cons.inj hg).1]
        simp

theorem windowOf_pairwise (timeFrame : ℕ) {ticks : List TickData}
    (h : ticks.Pairwise fun a b => a.time ≤ b.time) :
    ticks.Pairwise fun a b => windowOf timeFrame a ≤ windowOf timeFrame b :=
  h.imp fun hLe => window_mono timeFrame hLe

theorem putTicks_bars {timeFrame : ℕ} {ticks : List TickData}
    (hPos : ∀ tick ∈ ticks, 0 < window timeFrame tick.time) :
    (({ timeFrame } : CandleFactory).putTicks ticks).2 =
      (groups (windowOf timeFrame) ticks).dropLast.map (candle timeFrame) := by
  cases eq_or_ne ticks [] with
  | inl hNil =>
    rw [hNil]
    rfl
  | inr hNe =>
    obtain ⟨init, g, hGroups⟩ := groups_eq_concat (windowOf timeFrame) hNe
    rw [putTicks_fresh hPos hGroups, hGroups, List.dropLast_concat]

theorem candles_pairwise_lt {timeFrame : ℕ} {ticks : List TickData}
    (hSorted : ticks.Pairwise fun a b => a.time ≤ b.time) :
    ((groups (windowOf timeFrame) ticks).map (candle timeFrame)).Pairwise fun a b => a.t < b.t := by
  rw [List.pairwise_map]
  refine (groups_pairwise_lt (windowOf_pairwise timeFrame hSorted)).imp_of_mem ?_
  intro g g' hg hg' hLt
  obtain ⟨x, hx⟩ := List.exists_mem_of_ne_nil g (ne_nil_of_mem hg)
  obtain ⟨y, hy⟩ := List.exists_mem_of_ne_nil g' (ne_nil_of_mem hg')
  rw [candle_t hg hx, candle_t hg' hy]
  exact hLt x hx y hy

/-- The bars of a fresh factory, for any time frame: one for each group of ticks in one window but
the last, whose candle is still open. -/
theorem bars_are_candles (timeFrame : ℕ) (ticks : List TickData)
    (hSorted : ticks.Pairwise fun a b => a.time ≤ b.time)
    (hPos : ∀ tick ∈ ticks, 0 < window timeFrame tick.time) :
    let bars := (({ timeFrame } : CandleFactory).putTicks ticks).2
    let windows := groups (windowOf timeFrame) ticks
    bars = windows.dropLast.map (candle timeFrame) ∧
      bars.Pairwise (fun a b => a.t < b.t) ∧
      windows.flatten = ticks ∧
      (∀ g ∈ windows, g ≠ [] ∧ ∀ tick ∈ g, window timeFrame tick.time = (candle timeFrame g).t) ∧
      windows.Pairwise fun g g' =>
        ∀ a ∈ g, ∀ b ∈ g', window timeFrame a.time < window timeFrame b.time := by
  intro bars windows
  have hBars : bars = windows.dropLast.map (candle timeFrame) := putTicks_bars hPos
  refine ⟨hBars, ?_, flatten_groups _ ticks, ?_, ?_⟩
  · rw [hBars]
    exact (candles_pairwise_lt hSorted).sublist ((List.dropLast_sublist windows).map _)
  · intro g hg
    exact ⟨ne_nil_of_mem hg, fun tick hTick => (candle_t hg hTick).symm⟩
  · exact groups_pairwise_lt (windowOf_pairwise timeFrame hSorted)

theorem three_candles :
    let ticks : List TickData := [⟨1, 2, 60000⟩, ⟨3, 4, 61000⟩, ⟨2, 3, 119000⟩, ⟨5, 6, 240000⟩]
    let bars := (({ timeFrame := 1 } : CandleFactory).putTicks ticks).2
    let windows := groups (windowOf 1) ticks
    bars = [⟨1, 3, 1, 2, 60⟩] ∧ windows.length = 2 ∧
      bars = windows.dropLast.map (candle 1) ∧
      bars.Pairwise (fun a b => a.t < b.t) ∧
      windows.flatten = ticks ∧
      (∀ g ∈ windows, g ≠ [] ∧ ∀ tick ∈ g, window 1 tick.time = (candle 1 g).t) ∧
      windows.Pairwise fun g g' => ∀ a ∈ g, ∀ b ∈ g', window 1 a.time < window 1 b.time :=
  ⟨by decide +kernel, by decide +kernel, bars_are_candles 1
    [⟨1, 2, 60000⟩, ⟨3, 4, 61000⟩, ⟨2, 3, 119000⟩, ⟨5, 6, 240000⟩] (by decide) (by decide)⟩

end Fxquant.Feeder
