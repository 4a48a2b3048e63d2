import Fxquant.First.Strategy
import Fxquant.Optimizer
import Fxquant.StrategyGenerator

/-!
# The generator of the first strategy

What `first_strategy_generator.cpp` makes of the two counters. A created strategy is given by its
parameters.
-/

namespace Fxquant.First

open StrategyGenerator

def generatorParams (c : ParamsConfig) (minCandle maxTrades : ℤ) : Params where
  volume := c.volume
  sl := c.sl
  tp := c.tp
  minCandle := minCandle
  linesDist := c.linesDist
  maxTradesPerCandle := maxTrades

/-- The constructor of the strategy throws where its test fails. -/
def makeStrategy (c : ParamsConfig) (minCandle maxTrades : ℤ) : Option Params :=
  if (generatorParams c minCandle maxTrades).isValid then some (generatorParams c minCandle maxTrades)
  else none

/-- One strategy for each pair of the grid in its order, then none, and a run of as many
iterations. -/
structure CoversGrid (c : Config) (p : ParamsConfig) (grid : List (ℤ × ℤ)) : Prop where
  isGrid : IsGrid c grid
  created : ∀ k, created c (makeStrategy p) k (reset c) =
    match grid[k]? with
    | some (minCandle, maxTrades) => .strategy (generatorParams p minCandle maxTrades)
    | none => .null
  run : ∀ fuel, grid.length < fuel → optimizerRun c (makeStrategy p) fuel =
    some (.done (grid.map fun (minCandle, maxTrades) => generatorParams p minCandle maxTrades))

theorem makeStrategy_eq {p : ParamsConfig} (h : p.Accepted) {minCandle maxTrades : ℤ}
    (hMinCandle : 1 ≤ minCandle) (hMaxTrades : 1 ≤ maxTrades) :
    makeStrategy p minCandle maxTrades = some (generatorParams p minCandle maxTrades) := by
  obtain ⟨hVolume, hSl, hTp, hLinesDist⟩ := h
  rw [makeStrategy, if_pos]
  exact Params.isValid_iff.mpr ⟨hVolume, hSl, hTp, hMinCandle, hLinesDist, hMaxTrades⟩

theorem makeStrategy_of_mem {c : Config} {p : ParamsConfig} (h : c.Regular) (hParams : p.Accepted)
    {pair : ℤ × ℤ} (hMem : pair ∈ h.bounds.all) :
    makeStrategy p pair.1 pair.2 = some (generatorParams p pair.1 pair.2) := by
  obtain ⟨⟨hMinCandle, _⟩, hMaxTrades, _⟩ := (h.isGrid.mem pair.1 pair.2).mp hMem
  exact makeStrategy_eq hParams (h.minCandleStart.trans hMinCandle)
    (h.maxTradesPerCandleStart.trans hMaxTrades)

theorem coversGrid {c : Config} {p : ParamsConfig} (h : c.Regular) (hFits : c.Fits)
    (hParams : p.Accepted) : CoversGrid c p h.bounds.all where
  isGrid := h.isGrid
  created k := by
    rw [created_eq hFits (makeStrategy p) k (before_reset h)]
    cases hPair : h.bounds.all[k]? with
    | none => rfl
    | some pair =>
      dsimp only
      rw [makeStrategy_of_mem h hParams (List.mem_of_getElem? hPair)]
  run fuel hFuel :=
    runLoop_of_some hFits (fun _ hMem => makeStrategy_of_mem h hParams hMem) (before_reset h) hFuel

/-- The generator creates the grid, and the optimizer runs through it. -/
theorem generator_covers_grid {c : Config} {p : ParamsConfig} (h : c.Regular) (hFits : c.Fits)
    (hParams : p.Accepted) : ∃ grid, CoversGrid c p grid :=
  ⟨h.bounds.all, coversGrid h hFits hParams⟩

/-- The configuration of `first_strategy.json`. -/
theorem twelve_strategies_covered :
    ∃ grid, CoversGrid ⟨20, 220, 100, 1, 19, 6⟩ ⟨1000, 50, 50, 20⟩ grid :=
  generator_covers_grid ⟨by decide, by decide, by decide, by decide, by decide, by decide⟩
    ⟨by decide, by decide⟩ ⟨by norm_num, by decide, by decide, by decide⟩

/-! ### Under the threads of the optimizer -/

section Threads

variable {σ : Type} {c : Config} {p : ParamsConfig} {grid : List (ℤ × ℤ)} (start : Params → σ)
  (feed : ℕ → List Feeder.Call) (process : σ → Feeder.Call → σ) (engine : σ → FxEngine)

/-- `start` puts a strategy on a new engine. -/
def generatorSetup (c : Config) (p : ParamsConfig) : Optimizer.Setup σ where
  create k :=
    match created c (makeStrategy p) k (reset c) with
    | .strategy params => some (start params)
    | _ => none
  feed := feed
  process := process
  engine := engine

theorem create_generatorSetup (h : CoversGrid c p grid) (k : ℕ) :
    (generatorSetup start feed process engine c p).create k =
      grid[k]?.map fun (minCandle, maxTrades) => start (generatorParams p minCandle maxTrades) := by
  rw [generatorSetup]
  dsimp only
  rw [h.created]
  cases grid[k]? with
  | none => rfl
  | some pair => rfl

/-- However its threads interleave, the optimizer makes no more iterations than there are pairs. -/
theorem CoversGrid.iterations_le (h : CoversGrid c p grid) (actions : List Optimizer.Action) :
    (Runs.run (Optimizer.step (generatorSetup start feed process engine c p)) {}
      actions).stats.length ≤ grid.length := by
  apply Optimizer.iterations_le
  rw [create_generatorSetup start feed process engine h, List.getElem?_eq_none le_rfl]
  rfl

/-- Statistics that wait for the worker are those of the strategy with the pair of the iteration. -/
theorem CoversGrid.stats_eq (h : CoversGrid c p grid) {actions : List Optimizer.Action}
    (hDrained : Runs.Always (Optimizer.step (generatorSetup start feed process engine c p))
      Optimizer.Drained {} actions) {k : ℕ} {stats : ClosedTradesStats}
    (hStats : (Runs.run (Optimizer.step (generatorSetup start feed process engine c p)) {}
      actions).stats[k]? = some stats) :
    ∃ minCandle maxTrades, grid[k]? = some (minCandle, maxTrades) ∧
      stats = (engine ((feed k).foldl process
        (start (generatorParams p minCandle maxTrades)))).calcClosedTradesStats := by
  have hFull := (Optimizer.inv_run hDrained).stats k stats hStats
  rw [Optimizer.fullStats, create_generatorSetup start feed process engine h] at hFull
  cases hPair : grid[k]? with
  | none =>
    rw [hPair] at hFull
    cases hFull
  | some pair =>
    rw [hPair] at hFull
    exact ⟨pair.1, pair.2, rfl, (Option.some.inj hFull).symm⟩

end Threads

end Fxquant.First
