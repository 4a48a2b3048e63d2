import Fxquant.Ladder.Compute
import Fxquant.StrategyGenerator

/-!
# The generator of the ladder strategy

What `ladder_strategy_generator.cpp` makes of the two counters. It gives the first six of the
thirteen parameters, as if they were those of the first strategy; the others are zero.
-/

namespace Fxquant.Ladder

open StrategyGenerator

def generatorParams (c : ParamsConfig) (minCandle maxTrades : ℤ) : Params where
  volume := c.volume
  sl := c.sl
  tp := c.tp
  softTp := minCandle
  step := c.linesDist
  lvlTolerance := maxTrades
  tradesPerLvl := 0
  closeCycleOnProfit := 0
  sectionsInHalfRange := 0
  sectionsOffset := 0
  maxLotsAllowed := 0
  maxSpread := 0
  plr := 0

/-- The constructor of the strategy throws where `check_params` does. -/
def makeStrategy (c : ParamsConfig) (minCandle maxTrades : ℤ) : Option Params :=
  if (generatorParams c minCandle maxTrades).checkParams then
    some (generatorParams c minCandle maxTrades)
  else none

/-- The calls before the grid is exhausted return strategies, and a run completes the grid. -/
structure CompletesGrid (c : Config) (p : ParamsConfig) (grid : List (ℤ × ℤ)) : Prop where
  created : ∀ k < grid.length, ∃ s, created c (makeStrategy p) k (reset c) = .strategy s
  run : ∃ fuel strategies, optimizerRun c (makeStrategy p) fuel = some (.done strategies) ∧
    strategies.length = grid.length

/-- `trades_per_lvl` is zero. -/
theorem makeStrategy_eq_none (p : ParamsConfig) (minCandle maxTrades : ℤ) :
    makeStrategy p minCandle maxTrades = none := by
  rw [makeStrategy, if_neg]
  intro hAccepted
  obtain ⟨_, _, _, _, _, _, hTradesPerLvl, _⟩ := Params.checkParams_iff.mp hAccepted
  exact lt_irrefl _ hTradesPerLvl

theorem not_completesGrid {c : Config} (h : c.Regular) (p : ParamsConfig) {grid : List (ℤ × ℤ)}
    (hGrid : IsGrid c grid) : ¬ CompletesGrid c p grid := by
  intro hCompletes
  have hLength : 0 < grid.length := by
    rw [hGrid.eq h.isGrid]
    exact h.length_all_pos
  obtain ⟨s, hCreated⟩ := hCompletes.created 0 hLength
  exact created_of_none (makeStrategy_eq_none p) 0 (reset c) s hCreated

/-- No call ever returns a strategy, and every run ends with the exception of its first call. -/
theorem generator_never_completes {c : Config} (h : c.Regular) (p : ParamsConfig)
    {grid : List (ℤ × ℤ)} (hGrid : IsGrid c grid) :
    ¬ CompletesGrid c p grid ∧
      (∀ k s, created c (makeStrategy p) k (reset c) ≠ .strategy s) ∧
      ∀ fuel, optimizerRun c (makeStrategy p) (fuel + 1) = some (.thrown []) := by
  refine ⟨not_completesGrid h p hGrid, ?_, ?_⟩
  · intro k s
    exact created_of_none (makeStrategy_eq_none p) k (reset c) s
  · intro fuel
    exact optimizerRun_of_none (makeStrategy_eq_none p) h.minCandleEnd fuel

theorem two_candles_regular : Config.Regular ⟨20, 120, 100, 1, 1, 6⟩ :=
  ⟨by decide, by decide, by decide, by decide, by decide, by decide⟩

theorem two_candles_grid : IsGrid ⟨20, 120, 100, 1, 1, 6⟩ [(20, 1), (120, 1)] :=
  two_candles_regular.isGrid

theorem two_candles_never_complete :
    ¬ CompletesGrid ⟨20, 120, 100, 1, 1, 6⟩ ⟨1000, 50, 50, 20⟩ [(20, 1), (120, 1)] ∧
      (∀ k s, created ⟨20, 120, 100, 1, 1, 6⟩ (makeStrategy ⟨1000, 50, 50, 20⟩) k
        (reset ⟨20, 120, 100, 1, 1, 6⟩) ≠ .strategy s) ∧
      ∀ fuel, optimizerRun ⟨20, 120, 100, 1, 1, 6⟩ (makeStrategy ⟨1000, 50, 50, 20⟩) (fuel + 1) =
        some (.thrown []) :=
  generator_never_completes two_candles_regular ⟨1000, 50, 50, 20⟩ two_candles_grid

theorem accepted_params_thrown :
    ¬ ∀ c p grid, Config.Regular c → ParamsConfig.Accepted p → IsGrid c grid →
      CompletesGrid c p grid := by
  intro hAll
  have hCompletes := hAll ⟨20, 120, 100, 1, 1, 6⟩ ⟨1000, 50, 50, 20⟩ [(20, 1), (120, 1)]
    two_candles_regular ⟨by norm_num, by decide, by decide, by decide⟩ two_candles_grid
  exact not_completesGrid two_candles_regular _ two_candles_grid hCompletes

end Fxquant.Ladder
