import Fxquant.Feeder.TimeFrames

/-!
# The period of the controlled feeder

`controlled_feeder::start` asks the database for a window of ticks, and the warm-up ends by a
count of the minute bars passed on. Both ends of the window move with the lookback, and a
lookback of `n` minutes holds at most `n - 1` complete candles, so a lookback costs the period
its first tick and its last `n` minutes. The ends are 64-bit nanoseconds, and the hours of the
period an `int`; both wrap around for periods that do not fit.
-/

namespace Fxquant.Feeder

/-- Days from the epoch to a date; as for `timegm`, a month or a day may leave its range. -/
def daysFromCivil (day month year : ℤ) : ℤ :=
  let y := year + (month - 1) / 12
  let m := (month - 1) % 12
  let a := if m < 2 then y - 1 else y
  365 * a + a / 4 - a / 100 + a / 400 + (153 * ((m + 10) % 12) + 2) / 5 + day - 1 - 719468

/-- In seconds. -/
def utcTime (day month year : ℤ) : ℤ := daysFromCivil day month year * 86400

/-- A time point of `system_clock`, in nanoseconds. -/
def nanos (n : ℤ) : ℤ := n.bmod (2 ^ 64)

structure Period where
  day : ℤ
  month : ℤ
  year : ℤ
  days : ℤ
  lookbackMinutes : ℕ

namespace Period

variable (p : Period)

def start : ℤ := utcTime p.day p.month p.year * 1000

/-- The hours of the period, an `int`. -/
def hours : ℤ := (24 * p.days).bmod (2 ^ 32)

def fromNanos : ℤ :=
  if 0 < p.lookbackMinutes then nanos ((p.start - p.lookbackMinutes * 60000) * 10 ^ 6)
  else nanos (p.start * 10 ^ 6)

def toNanos : ℤ := nanos (p.fromNanos + p.hours * 3600000 * 10 ^ 6)

/-- The ends of the window as dates of the database, in milliseconds. -/
def fromTime : ℤ := p.fromNanos.tdiv (10 ^ 6)

def toTime : ℤ := p.toNanos.tdiv (10 ^ 6)

/-- What the database returns for the filter of `start`. -/
def query (stored : List TickData) : List TickData :=
  stored.filter fun tick => decide (p.fromTime ≤ tick.time) && decide (tick.time < p.toTime)

/-- The calls of a new feeder over the period. -/
def calls (sym : Symbol) (stored : List TickData) : List Call :=
  ControlledFeeder.calls sym p.lookbackMinutes (p.query stored) 0

def inPeriod (tick : TickData) : Bool :=
  decide (p.start ≤ tick.time) && decide (tick.time < p.start + p.days * 86400000)

def requested (stored : List TickData) : List TickData := stored.filter p.inPeriod

/-- The ticks of the period are in the window, as its ends are computed. -/
def InWindow (stored : List TickData) : Prop :=
  ∀ tick ∈ p.requested stored, p.fromTime ≤ tick.time ∧ tick.time < p.toTime

instance (stored : List TickData) : Decidable (p.InWindow stored) :=
  inferInstanceAs (Decidable (∀ tick ∈ _, _))

end Period

def tickOfCall : Call → Option TickData
  | .onBar _ _ => none
  | .onTick tick => some tick

def fed (calls : List Call) : List TickData := calls.filterMap tickOfCall

/-! ### Ticks passed on -/

theorem fed_append (a b : List Call) : fed (a ++ b) = fed a ++ fed b := List.filterMap_append

theorem fed_onTick (factories : List CandleFactory) (td : TickData) (ignoreCallback : Bool) :
    fed (onTick factories td ignoreCallback).2 = if ignoreCallback then [] else [td] := by
  have hBars : fed (barsOf factories td) = [] := by
    rw [fed, List.filterMap_eq_nil_iff]
    intro call hCall
    obtain ⟨f, _, hBar⟩ := List.mem_filterMap.mp hCall
    obtain ⟨_, _, rfl⟩ := Option.map_eq_some_iff.mp hBar
    rfl
  rw [onTick, fed_append, hBars, List.nil_append]
  cases ignoreCallback <;> rfl

theorem fed_feed (factories : List CandleFactory) (ticks : List (TickData × Bool)) :
    fed (feed factories ticks).2 = (ticks.filter fun td => !td.2).map Prod.fst := by
  induction ticks generalizing factories with
  | nil => rfl
  | cons td ticks ih =>
    rw [feed_cons, fed_append, fed_onTick, ih]
    cases hFlag : td.2 <;> simp [hFlag]

theorem fed_sublist (lookbackMinutes : ℕ) (factories : List CandleFactory) (barCount : ℕ)
    (ticks : List TickData) :
    (fed (controlledLoop lookbackMinutes (factories, barCount) ticks).2).Sublist ticks := by
  obtain ⟨ticks', rfl, _, hCalls⟩ := controlledLoop_eq_feed lookbackMinutes factories barCount ticks
  rw [hCalls, fed_feed]
  exact List.filter_sublist.map _

theorem fed_of_no_lookback (factories : List CandleFactory) (barCount : ℕ)
    (ticks : List TickData) : fed (controlledLoop 0 (factories, barCount) ticks).2 = ticks := by
  have hFlags : (ticks.map fun tick => (tick, false)).map Prod.fst = ticks := by
    rw [List.map_map]
    exact List.map_id ticks
  rw [← (dummyLoop_eq factories barCount ticks).2, dummyLoop_eq_feed, fed_feed,
    List.filter_eq_self.mpr]
  · exact hFlags
  · intro td hTd
    obtain ⟨_, _, rfl⟩ := List.mem_map.mp hTd
    rfl

theorem controlledLoop_append (lookbackMinutes : ℕ) (s : List CandleFactory × ℕ)
    (a b : List TickData) : controlledLoop lookbackMinutes s (a ++ b) =
      ((controlledLoop lookbackMinutes (controlledLoop lookbackMinutes s a).1 b).1,
        (controlledLoop lookbackMinutes s a).2 ++
          (controlledLoop lookbackMinutes (controlledLoop lookbackMinutes s a).1 b).2) := by
  induction a generalizing s with
  | nil => rfl
  | cons td a ih =>
    obtain ⟨factories, barCount⟩ := s
    rw [List.cons_append, controlledLoop_cons, controlledLoop_cons, ih, List.append_assoc]

/-! ### Minute bars -/

theorem countP_isMinuteBar (calls : List Call) : calls.countP isMinuteBar = (barsIn 1 calls).length := by
  induction calls with
  | nil => rfl
  | cons call calls ih =>
    cases call with
    | onBar timeFrame bar =>
      by_cases hFrame : timeFrame = 1 <;>
        simp_all [isMinuteBar, barsIn, barOf]
    | onTick tick => exact ih

theorem controlledLoop_barCount (lookbackMinutes : ℕ) (factories : List CandleFactory)
    (barCount : ℕ) (ticks : List TickData) :
    (controlledLoop lookbackMinutes (factories, barCount) ticks).1.2 = barCount +
      (barsIn 1 (controlledLoop lookbackMinutes (factories, barCount) ticks).2).length := by
  induction ticks generalizing factories barCount with
  | nil => rfl
  | cons td ticks ih =>
    rw [controlledLoop_cons, barsIn_append, List.length_append, ← countP_isMinuteBar, ← add_assoc]
    exact ih _ _

theorem minuteBars_eq (lookbackMinutes : ℕ) (ticks : List TickData) :
    (controlledLoop lookbackMinutes (newFactories, 0) ticks).1.2 =
      (({ timeFrame := 1 } : CandleFactory).putTicks ticks).2.length := by
  obtain ⟨ticks', rfl, _, hCalls⟩ := controlledLoop_eq_feed lookbackMinutes newFactories 0 ticks
  have hMem : ({ timeFrame := 1 } : CandleFactory) ∈ newFactories := by decide
  rw [controlledLoop_barCount, hCalls, zero_add]
  exact congrArg _ (barsIn_feed newFactories_nodup hMem ticks')

/-- Each minute bar passed on is a minute that the ticks have left behind. -/
theorem minuteBars_le {lo : ℤ} {init : List TickData} {last : TickData}
    (hSorted : (init ++ [last]).Pairwise fun a b => a.time ≤ b.time)
    (hLo : ∀ tick ∈ init ++ [last], lo ≤ window 1 tick.time) :
    (({ timeFrame := 1 } : CandleFactory).putTicks (init ++ [last])).2 = [] ∨
      0 < window 1 last.time ∧
        60 * ((({ timeFrame := 1 } : CandleFactory).putTicks (init ++ [last])).2.length : ℤ) ≤
          window 1 last.time - lo := by
  induction init using List.reverseRecOn generalizing last with
  | nil =>
    left
    simp only [List.nil_append, CandleFactory.putTicks, CandleFactory.putTick]
    split <;> rfl
  | append_singleton init prev ih =>
    obtain ⟨hInit, _, hLe⟩ := List.pairwise_append.mp hSorted
    have hBefore := ih hInit fun tick hTick => hLo tick (List.mem_append_left _ hTick)
    have hPrev : lo ≤ window 1 prev.time := hLo prev (by simp)
    have hMono : window 1 prev.time ≤ window 1 last.time :=
      window_mono 1 (hLe prev (by simp) last List.mem_cons_self)
    have hCarried : (({ timeFrame := 1 } : CandleFactory).putTicks (init ++ [prev])).1.bar.t =
        window 1 prev.time := by
      rw [CandleFactory.putTicks_concat, CandleFactory.putTick_t, CandleFactory.putTicks_timeFrame]
    rw [CandleFactory.putTicks_concat]
    cases hBar : ((({ timeFrame := 1 } : CandleFactory).putTicks (init ++ [prev])).1.putTick
        last).2 with
    | none =>
      simp only [Option.toList_none, List.append_nil]
      cases hBefore with
      | inl hNil => exact .inl hNil
      | inr hCount =>
        right
        omega
    | some bar =>
      obtain ⟨_, hOpen, hNe⟩ := CandleFactory.putTick_eq_some_iff.mp hBar
      rw [CandleFactory.putTicks_timeFrame, hCarried] at hNe
      rw [hCarried] at hOpen
      have hNext : window 1 prev.time + (1 : ℕ) * 60 ≤ window 1 last.time :=
        add_le_of_dvd (window_dvd 1 prev.time) (window_dvd 1 last.time)
          (lt_of_le_of_ne hMono hNe.symm)
      right
      rw [Option.toList_some, List.length_append, List.length_singleton]
      cases hBefore with
      | inl hNil =>
        rw [hNil, List.length_nil]
        omega
      | inr hCount =>
        omega

theorem window_one_of_minutes (minutes : ℤ) : window 1 (minutes * 60000) = minutes * 60 := by
  have hSeconds : (minutes * 60000).tdiv 1000 = minutes * 60 := by
    rw [show minutes * 60000 = minutes * 60 * 1000 by ring]
    exact Int.mul_tdiv_cancel _ (by norm_num)
  rw [window, hSeconds, Nat.cast_one, one_mul, Int.mul_tdiv_cancel _ (by norm_num)]

theorem window_le_time {timeFrame : ℕ} {time : ℤ} (h : 0 < window timeFrame time) :
    1000 * window timeFrame time ≤ time := by
  have hSeconds := (window_bounds h).1
  have hPast : 0 ≤ time := by
    by_contra hNeg
    have hTrunc : time.tdiv 1000 ≤ 0 := tdiv_nonpos (by omega) (by norm_num)
    omega
  rw [Int.tdiv_eq_ediv_of_nonneg hPast] at hSeconds
  omega

/-- The warm-up is not over when the period starts: ticks of `n` minutes before a full minute
complete less than `n` minute bars. -/
theorem barCount_lt {n : ℕ} (hPos : 0 < n) {start : ℤ} (hMinute : (60000 : ℤ) ∣ start)
    {ticks : List TickData} (hSorted : ticks.Pairwise fun a b => a.time ≤ b.time)
    (hFrom : ∀ tick ∈ ticks, start - n * 60000 ≤ tick.time)
    (hTo : ∀ tick ∈ ticks, tick.time < start) :
    (controlledLoop n (newFactories, 0) ticks).1.2 < n := by
  rw [minuteBars_eq]
  cases List.eq_nil_or_concat' ticks with
  | inl hNil =>
    rw [hNil]
    exact hPos
  | inr hConcat =>
    obtain ⟨init, last, rfl⟩ := hConcat
    obtain ⟨m, rfl⟩ := hMinute
    have hLo : ∀ tick ∈ init ++ [last], m * 60 - n * 60 ≤ window 1 tick.time := by
      intro tick hTick
      have hTime := hFrom tick hTick
      rw [← sub_mul, ← window_one_of_minutes]
      exact window_mono 1 (by linarith)
    cases minuteBars_le hSorted hLo with
    | inl hNil =>
      rw [hNil]
      exact hPos
    | inr hCount =>
      obtain ⟨hOpen, hLen⟩ := hCount
      have hLast := hTo last (by simp)
      have hTime := window_le_time hOpen
      obtain ⟨k, hk⟩ := window_dvd 1 last.time
      rw [hk] at hLen hTime
      push_cast at hLen hTime
      omega

/-! ### The period -/

theorem dvd_start (p : Period) : (60000 : ℤ) ∣ p.start :=
  ⟨daysFromCivil p.day p.month p.year * 1440, by rw [Period.start, utcTime]; ring⟩

theorem sorted_split (start : ℤ) {ticks : List TickData}
    (h : ticks.Pairwise fun a b => a.time ≤ b.time) :
    ticks = ticks.filter (fun tick => decide (tick.time < start)) ++
      ticks.filter fun tick => decide (start ≤ tick.time) := by
  induction ticks with
  | nil => rfl
  | cons first rest ih =>
    obtain ⟨hFirst, hRest⟩ := List.pairwise_cons.mp h
    by_cases hLt : first.time < start
    · have hOut : ¬start ≤ first.time := by omega
      rw [List.filter_cons_of_pos (by simpa using hLt),
        List.filter_cons_of_neg (by simpa using hOut), List.cons_append, ← ih hRest]
    · have hFrom : ∀ tick ∈ first :: rest, first.time ≤ tick.time := by
        intro tick hTick
        cases List.mem_cons.mp hTick with
        | inl hEq => rw [hEq]
        | inr hMem => exact hFirst tick hMem
      have hNone : (first :: rest).filter (fun tick => decide (tick.time < start)) = [] := by
        rw [List.filter_eq_nil_iff]
        intro tick hTick
        have hLe := hFrom tick hTick
        simp only [decide_eq_true_eq]
        omega
      have hAll : (first :: rest).filter (fun tick => decide (start ≤ tick.time)) =
          first :: rest := by
        rw [List.filter_eq_self]
        intro tick hTick
        have hLe := hFrom tick hTick
        simp only [decide_eq_true_eq]
        omega
      rw [hNone, hAll, List.nil_append]

theorem tickOf_sorted (sym : Symbol) {ticks : List TickData}
    (h : ticks.Pairwise fun a b => a.time ≤ b.time) :
    (ticks.map (tickOf sym)).Pairwise fun a b => a.time ≤ b.time :=
  List.pairwise_map.mpr h

theorem calls_eq_loop (p : Period) (sym : Symbol) (stored : List TickData) :
    p.calls sym stored = (controlledLoop p.lookbackMinutes (newFactories, 0)
      ((p.query stored).map (tickOf sym))).2 := rfl

theorem le_nanos {n : ℤ} (h : n < 2 ^ 63) : n ≤ nanos n := by
  rw [nanos]
  by_cases hLow : -2 ^ 63 ≤ n
  · rw [Int.bmod_eq_of_le (by norm_num at *; omega) (by norm_num at *; omega)]
  · have hLeast : -(((2 ^ 64 : ℕ) : ℤ) / 2) ≤ n.bmod (2 ^ 64) := Int.le_bmod (by norm_num)
    norm_num at *
    omega

theorem nanos_of_range {n : ℤ} (hLow : -2 ^ 63 ≤ n) (hHigh : n < 2 ^ 63) : nanos n = n :=
  Int.bmod_eq_of_le (by norm_num at *; omega) (by norm_num at *; omega)

theorem nanos_lt (n : ℤ) : nanos n < 2 ^ 63 := by
  have hLt : n.bmod (2 ^ 64) < (((2 ^ 64 : ℕ) : ℤ) + 1) / 2 := Int.bmod_lt (by norm_num)
  rw [nanos]
  norm_num at *
  omega

/-- A window that wraps around begins later, not earlier. -/
theorem le_fromTime {p : Period} (h : p.start * 10 ^ 6 < 2 ^ 63) :
    p.start - p.lookbackMinutes * 60000 ≤ p.fromTime := by
  have hMillis : (p.start - p.lookbackMinutes * 60000) =
      ((p.start - p.lookbackMinutes * 60000) * 10 ^ 6).tdiv (10 ^ 6) :=
    (Int.mul_tdiv_cancel _ (by norm_num)).symm
  have hNanos : (p.start - p.lookbackMinutes * 60000) * 10 ^ 6 ≤ p.fromNanos := by
    rw [Period.fromNanos]
    split
    · exact le_nanos (by omega)
    · rename_i hNone
      have hZero : p.lookbackMinutes = 0 := by omega
      rw [hZero, Nat.cast_zero, zero_mul, sub_zero]
      exact le_nanos h
  rw [hMillis, Period.fromTime]
  exact Int.tdiv_le_tdiv (by norm_num) hNanos

theorem toTime_lt (p : Period) : p.toTime * 10 ^ 6 < 2 ^ 63 + 10 ^ 6 := by
  have hMono : p.toNanos.tdiv (10 ^ 6) ≤ (2 ^ 63 : ℤ).tdiv (10 ^ 6) :=
    Int.tdiv_le_tdiv (by norm_num) (nanos_lt _).le
  have hTop : (2 ^ 63 : ℤ).tdiv (10 ^ 6) = 9223372036854 := by decide
  rw [hTop] at hMono
  rw [Period.toTime]
  omega

/-- A period whose ends fit is all in the window when there is no lookback. -/
theorem inWindow_of_fits {p : Period} (h : p.lookbackMinutes = 0) (hDays : |24 * p.days| < 2 ^ 31)
    (hStart : -2 ^ 63 ≤ p.start * 10 ^ 6)
    (hEnd : (p.start + p.days * 86400000) * 10 ^ 6 < 2 ^ 63) (stored : List TickData) :
    p.InWindow stored := by
  intro tick hTick
  have hBoth := (List.mem_filter.mp hTick).2
  simp only [Period.inPeriod, Bool.and_eq_true, decide_eq_true_eq] at hBoth
  obtain ⟨hFrom, hTo⟩ := hBoth
  obtain ⟨hLow, hHigh⟩ := abs_lt.mp hDays
  have hHours : p.hours = 24 * p.days :=
    Int.bmod_eq_of_le (by norm_num at *; omega) (by norm_num at *; omega)
  have hFromNanos : p.fromNanos = p.start * 10 ^ 6 := by
    rw [Period.fromNanos, if_neg (by omega), nanos_of_range hStart (by omega)]
  have hToNanos : p.toNanos = (p.start + p.days * 86400000) * 10 ^ 6 := by
    rw [Period.toNanos, hFromNanos, hHours]
    have hSum : p.start * 10 ^ 6 + 24 * p.days * 3600000 * 10 ^ 6 =
        (p.start + p.days * 86400000) * 10 ^ 6 := by ring
    rw [hSum, nanos_of_range (by omega) hEnd]
  rw [Period.fromTime, Period.toTime, hFromNanos, hToNanos, Int.mul_tdiv_cancel _ (by norm_num),
    Int.mul_tdiv_cancel _ (by norm_num)]
  exact ⟨hFrom, hTo⟩

theorem mem_query_iff {p : Period} {stored : List TickData} {tick : TickData} :
    tick ∈ p.query stored ↔ tick ∈ stored ∧ p.fromTime ≤ tick.time ∧ tick.time < p.toTime := by
  rw [Period.query, List.mem_filter, Bool.and_eq_true, decide_eq_true_eq, decide_eq_true_eq]

theorem requested_sublist_query {p : Period} {stored : List TickData} (h : p.InWindow stored) :
    (p.requested stored).Sublist (p.query stored) := by
  have hKept : (p.requested stored).filter (fun tick =>
      decide (p.fromTime ≤ tick.time) && decide (tick.time < p.toTime)) = p.requested stored := by
    rw [List.filter_eq_self]
    intro tick hTick
    simpa using h tick hTick
  rw [← hKept]
  exact List.Sublist.filter _ List.filter_sublist

theorem fed_drops_first {n : ℕ} (hPos : 0 < n) {start : ℤ} (hMinute : (60000 : ℤ) ∣ start)
    {before : List TickData} (hSorted : before.Pairwise fun a b => a.time ≤ b.time)
    (hFrom : ∀ tick ∈ before, start - n * 60000 ≤ tick.time)
    (hTo : ∀ tick ∈ before, tick.time < start) (first : TickData) (rest : List TickData) :
    ∃ early late, fed (controlledLoop n (newFactories, 0) (before ++ first :: rest)).2 =
      early ++ late ∧ early.Sublist before ∧ late.Sublist rest := by
  have hCount := barCount_lt hPos hMinute hSorted hFrom hTo
  have hEarly := fed_sublist n newFactories 0 before
  rw [controlledLoop_append, fed_append]
  generalize hState : (controlledLoop n (newFactories, 0) before).1 = s at hCount
  obtain ⟨factories, barCount⟩ := s
  have hWarm : isWarmingUp n barCount = true := by simp [isWarmingUp, hPos, hCount]
  rw [controlledLoop_cons, fed_append, fed_onTick, hWarm, if_pos rfl, List.nil_append]
  exact ⟨_, _, rfl, hEarly, fed_sublist _ _ _ _⟩

theorem filter_map_tickOf (p : Period) (sym : Symbol) (ticks : List TickData) :
    (ticks.map (tickOf sym)).filter p.inPeriod = (ticks.filter p.inPeriod).map (tickOf sym) :=
  List.filter_map

theorem query_split (p : Period) {stored : List TickData}
    (hSorted : stored.Pairwise fun a b => a.time ≤ b.time) :
    ∃ before rest, p.query stored = before ++ rest ∧
      (∀ tick ∈ before, tick.time < p.start) ∧ ∀ tick ∈ rest, p.start ≤ tick.time :=
  ⟨_, _, sorted_split p.start (hSorted.sublist List.filter_sublist),
    fun tick hTick => by simpa using (List.mem_filter.mp hTick).2,
    fun tick hTick => by simpa using (List.mem_filter.mp hTick).2⟩

theorem inPeriod_of_before {p : Period} {sym : Symbol} {before early : List TickData}
    (hBefore : ∀ tick ∈ before, tick.time < p.start)
    (hEarly : early.Sublist (before.map (tickOf sym))) : early.filter p.inPeriod = [] := by
  rw [List.filter_eq_nil_iff]
  intro tick hTick
  obtain ⟨doc, hDoc, rfl⟩ := List.mem_map.mp (hEarly.subset hTick)
  have hDocTime : (tickOf sym doc).time < p.start := hBefore doc hDoc
  simp only [Period.inPeriod, Bool.and_eq_true, decide_eq_true_eq]
  omega

/-- With a lookback, a period that holds a tick loses the first one at least. -/
theorem fed_in_period_lt {p : Period} (hPos : 0 < p.lookbackMinutes) (sym : Symbol)
    {stored : List TickData} (hSorted : stored.Pairwise fun a b => a.time ≤ b.time)
    (hSome : p.requested stored ≠ []) :
    ((fed (p.calls sym stored)).filter p.inPeriod).length < (p.requested stored).length := by
  obtain ⟨before, rest, hSplit, hBefore, hRest⟩ := query_split p hSorted
  have hRequested := List.length_pos_of_ne_nil hSome
  rw [calls_eq_loop, hSplit, List.map_append]
  cases rest with
  | nil =>
    rw [List.map_nil, List.append_nil, inPeriod_of_before hBefore (fed_sublist _ _ _ _)]
    exact hRequested
  | cons first rest =>
    have hQuery : (before ++ first :: rest).Sublist stored := hSplit ▸ List.filter_sublist
    have hStart : p.start * 10 ^ 6 < 2 ^ 63 := by
      have hMem : first ∈ p.query stored := hSplit ▸ List.mem_append_right _ List.mem_cons_self
      have hTo := (mem_query_iff.mp hMem).2.2
      have hFirstFrom := hRest first List.mem_cons_self
      linarith [toTime_lt p, Int.add_one_le_iff.mpr hTo]
    have hFrom : ∀ tick ∈ before, p.start - p.lookbackMinutes * 60000 ≤ tick.time := by
      intro tick hTick
      have hMem : tick ∈ p.query stored := hSplit ▸ List.mem_append_left _ hTick
      exact (le_fromTime hStart).trans (mem_query_iff.mp hMem).2.1
    obtain ⟨early, late, hFed, hEarly, hLate⟩ := fed_drops_first hPos (dvd_start p)
      (tickOf_sorted sym (List.pairwise_append.mp (hSorted.sublist hQuery)).1)
      (List.forall_mem_map.mpr hFrom) (List.forall_mem_map.mpr hBefore)
      (tickOf sym first) (rest.map (tickOf sym))
    have hLateLe := (hLate.filter p.inPeriod).length_le
    rw [filter_map_tickOf, List.length_map] at hLateLe
    rw [List.map_cons, hFed, List.filter_append, inPeriod_of_before hBefore hEarly,
      List.nil_append]
    by_cases hFirst : p.inPeriod first = true
    · have hSub := (List.sublist_append_right before (first :: rest)).trans hQuery
      have hLost : ((first :: rest).filter p.inPeriod).length ≤ (p.requested stored).length :=
        (hSub.filter _).length_le
      rw [List.filter_cons_of_pos hFirst, List.length_cons] at hLost
      omega
    · -- The first tick is past the period, and so are those after it.
      have hPast := (List.pairwise_cons.mp
        (List.pairwise_append.mp (hSorted.sublist hQuery)).2.1).1
      have hNone : rest.filter p.inPeriod = [] := by
        rw [List.filter_eq_nil_iff]
        intro tick hTick hIn
        have hLater := hPast tick hTick
        have hFirstFrom := hRest first List.mem_cons_self
        simp only [Period.inPeriod, Bool.and_eq_true, decide_eq_true_eq] at hFirst hIn
        omega
      rw [hNone, List.length_nil] at hLateLe
      omega

theorem inWindow_of_fed {p : Period} {sym : Symbol} {stored : List TickData}
    (h : ((p.requested stored).map (tickOf sym)).Subperm (fed (p.calls sym stored))) :
    p.InWindow stored := by
  intro tick hTick
  have hFed : tickOf sym tick ∈ fed (p.calls sym stored) :=
    h.subset (List.mem_map_of_mem hTick)
  rw [calls_eq_loop] at hFed
  obtain ⟨doc, hDoc, hEq⟩ := List.mem_map.mp ((fed_sublist _ _ _ _).subset hFed)
  have hTime : (tickOf sym doc).time = (tickOf sym tick).time := by rw [hEq]
  change doc.time = tick.time at hTime
  rw [← hTime]
  exact (mem_query_iff.mp hDoc).2

/-- The controlled feeder passes all ticks of its period on exactly when there is no tick, or it has
no lookback and the window has them all. -/
theorem period_is_fed_iff (sym : Symbol) (p : Period) (stored : List TickData)
    (hSorted : stored.Pairwise fun a b => a.time ≤ b.time) :
    ((p.requested stored).map (tickOf sym)).Subperm (fed (p.calls sym stored)) ↔
      p.requested stored = [] ∨ p.lookbackMinutes = 0 ∧ p.InWindow stored := by
  constructor
  · intro hFed
    by_contra hBoth
    obtain ⟨hSome, hOut⟩ := not_or.mp hBoth
    have hLookback : p.lookbackMinutes ≠ 0 := fun hZero => hOut ⟨hZero, inWindow_of_fed hFed⟩
    have hLt := fed_in_period_lt (Nat.pos_of_ne_zero hLookback) sym hSorted hSome
    have hLe := (hFed.filter p.inPeriod).length_le
    rw [filter_map_tickOf, List.length_map, Period.requested, List.filter_filter] at hLe
    simp only [Bool.and_self] at hLe
    exact absurd hLe (not_le.mpr hLt)
  · rintro (hNone | ⟨hLookback, hWindow⟩)
    · rw [hNone]
      exact List.nil_subperm
    · rw [calls_eq_loop, hLookback, fed_of_no_lookback]
      exact ((requested_sublist_query hWindow).map _).subperm

theorem lookback_loses_the_period :
    let p : Period := ⟨2, 1, 2017, 1, 1⟩
    let stored : List TickData := [⟨1, 2, 1483315200000⟩, ⟨1, 2, 1483401570000⟩]
    p.start = 1483315200000 ∧
      ∀ tick ∈ stored, (p.start ≤ tick.time ∧ tick.time < p.start + p.days * 86400000) ∧
        .onTick (tickOf .eurusd tick) ∉ p.calls .eurusd stored := by
  decide +kernel

theorem no_lookback_feeds :
    let p : Period := ⟨2, 1, 2017, 1, 0⟩
    let stored : List TickData := [⟨1, 2, 1483315200000⟩, ⟨1, 2, 1483401570000⟩]
    p.requested stored = stored ∧
      ((p.requested stored).map (tickOf .eurusd)).Subperm (fed (p.calls .eurusd stored)) :=
  ⟨by decide +kernel, (period_is_fed_iff .eurusd ⟨2, 1, 2017, 1, 0⟩
    [⟨1, 2, 1483315200000⟩, ⟨1, 2, 1483401570000⟩] (by decide)).mpr (.inr (by decide +kernel))⟩

end Fxquant.Feeder
