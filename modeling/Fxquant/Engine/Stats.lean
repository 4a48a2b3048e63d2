import Mathlib.Algebra.Order.Ring.Rat
import Fxquant.Engine.Book
import Fxquant.Library.Streaks

/-!
# Statistics of the trades

`fx_engine::calc_closed_trades_stats` and `fx_engine::calc_open_trades_stats`. A time that is
never assigned is that of the epoch.
-/

namespace Fxquant

structure ClosedTradesStats where
  totalClosedTrades : ℕ
  closedWins : ℕ
  closedLoses : ℕ
  maxProfitsInRow : ℕ
  maxLosesInRow : ℕ
  openTime : ℤ
  closedTime : ℤ
  closeProfit : ℚ
  maxProfit : ℚ
  minProfit : ℚ
  deriving DecidableEq, Repr

structure OpenTradesStats where
  openedWins : ℕ := 0
  openedLoses : ℕ := 0
  openedProfit : ℚ := 0
  deriving DecidableEq, Repr

def OpenTradesStats.add (st : OpenTradesStats) (profit : ℚ) : OpenTradesStats :=
  let st :=
    if 0 ≤ profit then { st with openedWins := st.openedWins + 1 }
    else { st with openedLoses := st.openedLoses + 1 }
  { st with openedProfit := st.openedProfit + profit }

namespace FxEngine

open Streaks

/-- Before the first tick `latest_tick_` has the prices of a default `tick_data`. -/
def getLatestTick (e : FxEngine) : TickData := e.latestTick.getD ⟨0, 0, 0⟩

def calcOpenTradesStats (e : FxEngine) : OpenTradesStats :=
  e.openedOrders.foldl
    (fun st optr => OpenTradesStats.add st ((e.heap optr).profitAt e.getLatestTick)) {}

/-- The variables of the loop of `calc_closed_trades_stats`. -/
structure Tally where
  profit : ℚ := 0
  wins : ℕ := 0
  loses : ℕ := 0
  lowestProfit : ℚ := 0
  highestProfit : ℚ := 0
  maxProfitsInRow : ℕ := 0
  currentProfitCount : ℕ := 0
  maxLosesInRow : ℕ := 0
  currentLossCount : ℕ := 0

def Tally.add (t : Tally) (pr : ℚ) : Tally :=
  let t := { t with profit := t.profit + pr }
  let t :=
    if 0 ≤ pr then
      { t with
        wins := t.wins + 1
        currentLossCount := 0
        currentProfitCount := t.currentProfitCount + 1
        maxProfitsInRow := if t.maxProfitsInRow < t.currentProfitCount + 1
          then t.currentProfitCount + 1 else t.maxProfitsInRow }
    else
      { t with
        loses := t.loses + 1
        currentProfitCount := 0
        currentLossCount := t.currentLossCount + 1
        maxLosesInRow := if t.maxLosesInRow < t.currentLossCount + 1
          then t.currentLossCount + 1 else t.maxLosesInRow }
  { t with
    lowestProfit := if t.profit < t.lowestProfit then t.profit else t.lowestProfit
    highestProfit := if t.highestProfit < t.profit then t.profit else t.highestProfit }

def calcClosedTradesStats (e : FxEngine) : ClosedTradesStats :=
  let t : Tally := e.closedOrders.foldl (fun t optr => t.add (e.heap optr).profitValue) {}
  { totalClosedTrades := e.closedOrders.length
    closedWins := t.wins
    closedLoses := t.loses
    maxProfitsInRow := t.maxProfitsInRow
    maxLosesInRow := t.maxLosesInRow
    openTime := (e.closedOrders.head?.bind fun optr => (e.heap optr).openTick).elim 0 TickData.time
    closedTime :=
      (e.closedOrders.getLast?.bind fun optr => (e.heap optr).closeTick).elim 0 TickData.time
    closeProfit := t.profit
    maxProfit := t.highestProfit
    minProfit := t.lowestProfit }

theorem foldl_openTradesStats (l : List ℚ) (st : OpenTradesStats) :
    (l.foldl OpenTradesStats.add st).openedProfit = st.openedProfit + l.sum ∧
      (l.foldl OpenTradesStats.add st).openedWins + (l.foldl OpenTradesStats.add st).openedLoses =
        st.openedWins + st.openedLoses + l.length := by
  induction l generalizing st with
  | nil => simp
  | cons pr l ih =>
    obtain ⟨hProfit, hCount⟩ := ih (OpenTradesStats.add st pr)
    rw [List.foldl_cons, hProfit, hCount, List.sum_cons, List.length_cons, OpenTradesStats.add]
    split
    · exact ⟨by ring, by ring⟩
    · exact ⟨by ring, by ring⟩

theorem calcOpenTradesStats_spec (e : FxEngine) :
    e.calcOpenTradesStats.openedProfit =
        (e.openedOrders.map fun p => (e.heap p).profitAt e.getLatestTick).sum ∧
      e.calcOpenTradesStats.openedWins + e.calcOpenTradesStats.openedLoses =
        e.openedOrders.length := by
  have hFold : e.calcOpenTradesStats = (e.openedOrders.map fun p =>
      (e.heap p).profitAt e.getLatestTick).foldl OpenTradesStats.add {} := by
    rw [List.foldl_map]
    rfl
  obtain ⟨hProfit, hCount⟩ := foldl_openTradesStats
    (e.openedOrders.map fun p => (e.heap p).profitAt e.getLatestTick) {}
  rw [hFold]
  refine ⟨hProfit.trans (zero_add _), hCount.trans ?_⟩
  rw [List.length_map]
  exact Nat.zero_add _

/-! ### The closed trades -/

/-- What the variables of the loop say about the profits passed so far. -/
structure Tallies (profits : List ℚ) (t : Tally) : Prop where
  profit : t.profit = profits.sum
  wins : t.wins = profits.countP fun pr => decide (0 ≤ pr)
  loses : t.loses = profits.countP fun pr => decide (pr < 0)
  lowest : IsLeast (partialSums profits) t.lowestProfit
  highest : IsGreatest (partialSums profits) t.highestProfit
  maxProfits : IsGreatest (streaks (0 ≤ ·) profits) t.maxProfitsInRow
  currentProfits : IsGreatest (trailing (0 ≤ ·) profits) t.currentProfitCount
  maxLoses : IsGreatest (streaks (· < 0) profits) t.maxLosesInRow
  currentLoses : IsGreatest (trailing (· < 0) profits) t.currentLossCount

theorem tallies_nil : Tallies [] {} where
  profit := rfl
  wins := rfl
  loses := rfl
  lowest := by
    rw [partialSums_nil]
    exact isLeast_singleton
  highest := by
    rw [partialSums_nil]
    exact isGreatest_singleton
  maxProfits := streaks_nil _
  currentProfits := trailing_nil _
  maxLoses := streaks_nil _
  currentLoses := trailing_nil _

/-- The counter of a run that goes on, and the longest run so far. -/
theorem maxInRow_of_pass {passes : ℚ → Prop} {profits : List ℚ} {longest current : ℕ} {pr : ℚ}
    (hCurrent : IsGreatest (trailing passes profits) current)
    (hLongest : IsGreatest (streaks passes profits) longest) (hPass : passes pr) :
    IsGreatest (streaks passes (profits ++ [pr]))
      (if longest < current + 1 then current + 1 else longest) := by
  rw [← max_def_lt, max_comm]
  exact streaks_concat_of_pass hCurrent hLongest hPass

theorem Tallies.add {profits : List ℚ} {t : Tally} (h : Tallies profits t) (pr : ℚ) :
    Tallies (profits ++ [pr]) (t.add pr) := by
  have hSum : t.profit + pr = (profits ++ [pr]).sum := by
    rw [List.sum_append, h.profit, List.sum_singleton]
  have hLowest : IsLeast (partialSums (profits ++ [pr]))
      (if t.profit + pr < t.lowestProfit then t.profit + pr else t.lowestProfit) := by
    rw [partialSums_concat, ← min_def_lt, ← h.profit]
    exact h.lowest.insert _
  have hHighest : IsGreatest (partialSums (profits ++ [pr]))
      (if t.highestProfit < t.profit + pr then t.profit + pr else t.highestProfit) := by
    rw [partialSums_concat, ← max_def_lt, max_comm, ← h.profit]
    exact h.highest.insert _
  rcases le_or_gt 0 pr with hWin | hLoss
  · have hNotLoss : ¬ pr < 0 := not_lt.mpr hWin
    simp only [Tally.add, hWin, if_true]
    exact {
      profit := hSum
      wins := by simp [h.wins, List.countP_append, hWin]
      loses := by simp [h.loses, List.countP_append, hNotLoss]
      lowest := hLowest
      highest := hHighest
      maxProfits := maxInRow_of_pass h.currentProfits h.maxProfits hWin
      currentProfits := trailing_concat_of_pass h.currentProfits hWin
      maxLoses := streaks_concat_of_fail h.maxLoses hNotLoss
      currentLoses := trailing_concat_of_fail profits hNotLoss }
  · have hNotWin : ¬ 0 ≤ pr := not_le.mpr hLoss
    simp only [Tally.add, hNotWin, if_false]
    exact {
      profit := hSum
      wins := by simp [h.wins, List.countP_append, hNotWin]
      loses := by simp [h.loses, List.countP_append, hLoss]
      lowest := hLowest
      highest := hHighest
      maxProfits := streaks_concat_of_fail h.maxProfits hNotWin
      currentProfits := trailing_concat_of_fail profits hNotWin
      maxLoses := maxInRow_of_pass h.currentLoses h.maxLoses hLoss
      currentLoses := trailing_concat_of_pass h.currentLoses hLoss }

theorem tallies_foldl (profits : List ℚ) : Tallies profits (profits.foldl Tally.add {}) := by
  induction profits using List.reverseRecOn with
  | nil => exact tallies_nil
  | append_singleton profits pr ih =>
    rw [List.foldl_append]
    exact ih.add pr

/-- The figures of a list of profits, from their definitions. -/
structure Summarises (st : ClosedTradesStats) (profits : List ℚ) : Prop where
  totalClosedTrades : st.totalClosedTrades = profits.length
  closedWins : st.closedWins = profits.countP fun pr => decide (0 ≤ pr)
  closedLoses : st.closedLoses = profits.countP fun pr => decide (pr < 0)
  closedTrades : st.closedWins + st.closedLoses = st.totalClosedTrades
  closeProfit : st.closeProfit = profits.sum
  maxProfit : IsGreatest (partialSums profits) st.maxProfit
  minProfit : IsLeast (partialSums profits) st.minProfit
  maxProfitsInRow : IsGreatest (streaks (0 ≤ ·) profits) st.maxProfitsInRow
  maxLosesInRow : IsGreatest (streaks (· < 0) profits) st.maxLosesInRow

theorem countP_win_add_countP_loss (profits : List ℚ) :
    profits.countP (fun pr => decide (0 ≤ pr)) + profits.countP (fun pr => decide (pr < 0)) =
      profits.length := by
  rw [List.length_eq_countP_add_countP fun pr => decide (0 ≤ pr)]
  congr 1
  apply List.countP_congr
  intro pr _
  simp

theorem summarises_profitValues (e : FxEngine) :
    Summarises e.calcClosedTradesStats (e.closedOrders.map fun p => (e.heap p).profitValue) := by
  have hTallies := tallies_foldl (e.closedOrders.map fun p => (e.heap p).profitValue)
  have hTrades := countP_win_add_countP_loss (e.closedOrders.map fun p => (e.heap p).profitValue)
  rw [← hTallies.wins, ← hTallies.loses, List.length_map] at hTrades
  rw [List.foldl_map] at hTallies hTrades
  exact {
    totalClosedTrades := (List.length_map _).symm
    closedWins := hTallies.wins
    closedLoses := hTallies.loses
    closedTrades := hTrades
    closeProfit := hTallies.profit
    maxProfit := hTallies.highest
    minProfit := hTallies.lowest
    maxProfitsInRow := hTallies.maxProfits
    maxLosesInRow := hTallies.maxLoses }

theorem profits_of_isClosed {e : FxEngine} {l : List Ptr}
    (h : ∀ p ∈ l, (e.heap p).isClosed = true) :
    l.map (fun p => (e.heap p).profit) = (l.map fun p => (e.heap p).profitValue).map some := by
  rw [List.map_map]
  apply List.map_congr_left
  intro p hp
  obtain ⟨price, hPrice⟩ := Option.isSome_iff_exists.mp (h p hp)
  simp [Order.profitValue, Order.profit, hPrice]

/-- The figures stored for closed orders are those of their profits. -/
theorem closed_trades_summarised (e : FxEngine)
    (h : ∀ p ∈ e.closedOrders, (e.heap p).isOpened = true ∧ (e.heap p).isClosed = true) :
    ∃ profits : List ℚ, e.closedOrders.map (fun p => (e.heap p).profit) = profits.map some ∧
      Summarises e.calcClosedTradesStats profits :=
  ⟨_, profits_of_isClosed fun p hp => (h p hp).2, summarises_profitValues e⟩

def winThenLoss : FxEngine where
  heap := fun p => {
    type := .buyOrder, id := p + 1, symbol := .eurusd, volume := 1, orderPrice := 1
    openPrice := some 1, closePrice := some (if p = 0 then 101 / 100 else 98 / 100) }
  nextPtr := 2
  closedOrders := [0, 1]

theorem win_then_loss_summarised :
    ∃ profits : List ℚ,
      winThenLoss.closedOrders.map (fun p => (winThenLoss.heap p).profit) = profits.map some ∧
      Summarises winThenLoss.calcClosedTradesStats profits :=
  closed_trades_summarised winThenLoss fun _ _ => ⟨rfl, rfl⟩

end FxEngine

end Fxquant
