import Fxquant.Library.Grid
import Mathlib.Data.Int.DivMod
import Mathlib.Data.Rat.Defs

/-!
# Strategy generators

The two counters that `first_strategy_generator.cpp` and `ladder_strategy_generator.cpp` share, and
the loop of `optimizer::run` over what a generator creates. Whether the counters are through is
tested at the next call. The counters are of type `int`.
-/

namespace Fxquant.StrategyGenerator

open Grid

/-- The `optimizer` section of the configuration. -/
structure Config where
  minCandleStart : ℤ
  minCandleEnd : ℤ
  minCandleStep : ℤ
  maxTradesPerCandleStart : ℤ
  maxTradesPerCandleEnd : ℤ
  maxTradesPerCandleStep : ℤ

/-- The `params` section, as far as the generators read it. -/
structure ParamsConfig where
  volume : ℚ
  sl : ℤ
  tp : ℤ
  linesDist : ℤ

structure Counters where
  currentMinCandle : ℤ
  currentMaxTradesPerCandle : ℤ

/-- A call of `create` may also leave with the exception of the strategy's constructor. -/
inductive Created (α : Type) where
  | null
  | strategy (s : α)
  | throws
  deriving DecidableEq

def addInt (a b : ℤ) : ℤ := Int.bmod (a + b) (2 ^ 32)

variable {α : Type}

def reset (c : Config) : Counters := ⟨c.minCandleStart, c.maxTradesPerCandleStart⟩

/-- `create`, with the construction of a strategy from the two counters. -/
def create (c : Config) (make : ℤ → ℤ → Option α) (g : Counters) : Counters × Created α :=
  if c.minCandleEnd < g.currentMinCandle then (g, .null)
  else
    let maxTrades := addInt g.currentMaxTradesPerCandle c.maxTradesPerCandleStep
    let next : Counters :=
      if c.maxTradesPerCandleEnd < maxTrades then
        ⟨addInt g.currentMinCandle c.minCandleStep, c.maxTradesPerCandleStart⟩
      else ⟨g.currentMinCandle, maxTrades⟩
    match make g.currentMinCandle g.currentMaxTradesPerCandle with
    | some s => (next, .strategy s)
    | none => (next, .throws)

def created (c : Config) (make : ℤ → ℤ → Option α) : ℕ → Counters → Created α
  | 0, g => (create c make g).2
  | k + 1, g => created c make k (create c make g).1

/-- How a run of the optimizer ends, with the strategies of its iterations. -/
inductive Outcome (α : Type) where
  | done (strategies : List α)
  | thrown (strategies : List α)
  deriving DecidableEq

def Outcome.after (s : α) : Outcome α → Outcome α
  | .done strategies => .done (s :: strategies)
  | .thrown strategies => .thrown (s :: strategies)

/-- The loop of `optimizer::run`; nothing if it takes more than the given iterations. -/
def runLoop (c : Config) (make : ℤ → ℤ → Option α) : ℕ → Counters → Option (Outcome α)
  | 0, _ => none
  | fuel + 1, g =>
    match create c make g with
    | (_, .null) => some (.done [])
    | (_, .throws) => some (.thrown [])
    | (g, .strategy s) => (runLoop c make fuel g).map (.after s)

def optimizerRun (c : Config) (make : ℤ → ℤ → Option α) (fuel : ℕ) : Option (Outcome α) :=
  runLoop c make fuel (reset c)

/-! ### The grid -/

structure Config.Regular (c : Config) : Prop where
  minCandleStep : 0 < c.minCandleStep
  maxTradesPerCandleStep : 0 < c.maxTradesPerCandleStep
  minCandleStart : 1 ≤ c.minCandleStart
  minCandleEnd : c.minCandleStart ≤ c.minCandleEnd
  maxTradesPerCandleStart : 1 ≤ c.maxTradesPerCandleStart
  maxTradesPerCandleEnd : c.maxTradesPerCandleStart ≤ c.maxTradesPerCandleEnd

structure Config.Fits (c : Config) : Prop where
  minCandle : c.minCandleEnd + c.minCandleStep < 2 ^ 31
  maxTradesPerCandle : c.maxTradesPerCandleEnd + c.maxTradesPerCandleStep < 2 ^ 31

/-- Values that the constructor of the first strategy accepts. -/
structure ParamsConfig.Accepted (p : ParamsConfig) : Prop where
  volume : 1 / 100 ≤ p.volume
  sl : 0 ≤ p.sl
  tp : 0 ≤ p.tp
  linesDist : 0 < p.linesDist

def InProgression (start stop step a : ℤ) : Prop := start ≤ a ∧ a ≤ stop ∧ step ∣ a - start

/-- The pairs of the two progressions, once each and in lexicographic order. -/
structure IsGrid (c : Config) (grid : List (ℤ × ℤ)) : Prop where
  mem : ∀ minCandle maxTrades, (minCandle, maxTrades) ∈ grid ↔
    InProgression c.minCandleStart c.minCandleEnd c.minCandleStep minCandle ∧
      InProgression c.maxTradesPerCandleStart c.maxTradesPerCandleEnd c.maxTradesPerCandleStep
        maxTrades
  sorted : grid.Pairwise (Prod.Lex (· < ·) (· < ·))

theorem IsGrid.eq {c : Config} {grid grid' : List (ℤ × ℤ)} (h : IsGrid c grid)
    (h' : IsGrid c grid') : grid = grid' := by
  have hNodup : ∀ {l : List (ℤ × ℤ)}, l.Pairwise (Prod.Lex (· < ·) (· < ·)) → l.Nodup := by
    intro l hSorted
    apply hSorted.imp
    rintro a _ hLex rfl
    exact irrefl_of (Prod.Lex (· < ·) (· < ·)) a hLex
  have hPerm : grid.Perm grid' := by
    apply (List.perm_ext_iff_of_nodup (hNodup h.sorted) (hNodup h'.sorted)).mpr
    rintro ⟨minCandle, maxTrades⟩
    rw [h.mem, h'.mem]
  apply hPerm.eq_of_pairwise _ h.sorted h'.sorted
  intro a b _ _ hLt hGt
  exact absurd (trans_of (Prod.Lex (· < ·) (· < ·)) hLt hGt)
    (irrefl_of (Prod.Lex (· < ·) (· < ·)) a)

namespace Config.Regular

variable {c : Config}

def bounds (h : c.Regular) : Bounds where
  outerStart := c.minCandleStart
  outerStop := c.minCandleEnd
  outerStep := c.minCandleStep
  innerStart := c.maxTradesPerCandleStart
  innerStop := c.maxTradesPerCandleEnd
  innerStep := c.maxTradesPerCandleStep
  outerStep_pos := h.minCandleStep
  innerStep_pos := h.maxTradesPerCandleStep
  innerStart_le := h.maxTradesPerCandleEnd

theorem isGrid (h : c.Regular) : IsGrid c h.bounds.all where
  mem minCandle maxTrades := by
    rw [Bounds.all, pairs, List.mem_product]
    exact and_congr (mem_progression_iff h.minCandleStep)
      (mem_progression_iff h.maxTradesPerCandleStep)
  sorted := pairs_sorted (progression_sorted h.minCandleStep)
    (progression_sorted h.maxTradesPerCandleStep)

theorem length_all_pos (h : c.Regular) : 0 < h.bounds.all.length := by
  have hMem := (h.isGrid.mem c.minCandleStart c.maxTradesPerCandleStart).mpr
    ⟨⟨le_rfl, h.minCandleEnd, by simp⟩, ⟨le_rfl, h.maxTradesPerCandleEnd, by simp⟩⟩
  exact List.length_pos_of_mem hMem

end Config.Regular

/-! ### The counters walk the grid -/

theorem addInt_eq {a b : ℤ} (h : 0 ≤ a + b) (h' : a + b < 2 ^ 31) : addInt a b = a + b := by
  apply Int.bmod_eq_of_le
  · omega
  · omega

/-- The counters are where the pairs `rest` are still to come. -/
structure Before (c : Config) (h : c.Regular) (g : Counters) (rest : List (ℤ × ℤ)) : Prop where
  remaining : h.bounds.remaining (g.currentMinCandle, g.currentMaxTradesPerCandle) = rest
  minCandle : 1 ≤ g.currentMinCandle
  maxTrades : 1 ≤ g.currentMaxTradesPerCandle
  maxTradesEnd : g.currentMaxTradesPerCandle ≤ c.maxTradesPerCandleEnd

variable {c : Config} {h : c.Regular} {g : Counters} {rest : List (ℤ × ℤ)}

theorem before_reset (h : c.Regular) : Before c h (reset c) h.bounds.all where
  remaining := h.bounds.remaining_row c.minCandleStart
  minCandle := h.minCandleStart
  maxTrades := h.maxTradesPerCandleStart
  maxTradesEnd := h.maxTradesPerCandleEnd

theorem create_of_nil (make : ℤ → ℤ → Option α) (hBefore : Before c h g []) :
    create c make g = (g, .null) := by
  rw [create, if_pos]
  by_contra hLe
  have hCons := h.bounds.remaining_eq_cons
    (s := (g.currentMinCandle, g.currentMaxTradesPerCandle)) (not_lt.mp hLe) hBefore.maxTradesEnd
  rw [hBefore.remaining] at hCons
  cases hCons

/-- A call takes the first pair, whether a strategy comes of it or not. -/
theorem create_of_cons (hFits : c.Fits) (make : ℤ → ℤ → Option α) {p : ℤ × ℤ}
    (hBefore : Before c h g (p :: rest)) :
    ∃ g', Before c h g' rest ∧ create c make g =
      (g', match make p.1 p.2 with | some s => .strategy s | none => .throws) := by
  obtain ⟨minCandle, maxTrades⟩ := g
  obtain ⟨hRest, hLow, hLow', hHigh'⟩ := hBefore
  dsimp only at hRest hLow hLow' hHigh'
  have hHigh : minCandle ≤ c.minCandleEnd := by
    by_contra hPast
    rw [h.bounds.remaining_of_lt (s := (minCandle, maxTrades)) (not_le.mp hPast)] at hRest
    cases hRest
  rw [h.bounds.remaining_eq_cons (s := (minCandle, maxTrades)) hHigh hHigh'] at hRest
  obtain ⟨rfl, rfl⟩ := List.cons.inj hRest
  have hStep := h.minCandleStep
  have hStep' := h.maxTradesPerCandleStep
  have hInt := hFits.minCandle
  have hInt' := hFits.maxTradesPerCandle
  have hAdd : addInt minCandle c.minCandleStep = minCandle + c.minCandleStep :=
    addInt_eq (by omega) (by omega)
  have hAdd' : addInt maxTrades c.maxTradesPerCandleStep = maxTrades + c.maxTradesPerCandleStep :=
    addInt_eq (by omega) (by omega)
  rw [create, if_neg hHigh.not_gt]
  dsimp only
  rw [hAdd, hAdd']
  by_cases hPast : c.maxTradesPerCandleEnd < maxTrades + c.maxTradesPerCandleStep
  · have hNext : h.bounds.next (minCandle, maxTrades) =
        (minCandle + c.minCandleStep, c.maxTradesPerCandleStart) := if_pos hPast
    refine ⟨⟨minCandle + c.minCandleStep, c.maxTradesPerCandleStart⟩,
      ⟨by rw [hNext], by dsimp only; omega, h.maxTradesPerCandleStart, h.maxTradesPerCandleEnd⟩, ?_⟩
    rw [if_pos hPast]
    cases make minCandle maxTrades with
    | some s => rfl
    | none => rfl
  · have hNext : h.bounds.next (minCandle, maxTrades) =
        (minCandle, maxTrades + c.maxTradesPerCandleStep) := if_neg hPast
    refine ⟨⟨minCandle, maxTrades + c.maxTradesPerCandleStep⟩,
      ⟨by rw [hNext], hLow, by dsimp only; omega, not_lt.mp hPast⟩, ?_⟩
    rw [if_neg hPast]
    cases make minCandle maxTrades with
    | some s => rfl
    | none => rfl

theorem created_eq (hFits : c.Fits) (make : ℤ → ℤ → Option α) (k : ℕ) (hBefore : Before c h g rest) :
    created c make k g =
      match rest[k]? with
      | none => .null
      | some p => match make p.1 p.2 with | some s => .strategy s | none => .throws := by
  induction k generalizing g rest with
  | zero =>
    cases rest with
    | nil => rw [created, create_of_nil make hBefore]; rfl
    | cons p rest =>
      obtain ⟨g', _, hCreate⟩ := create_of_cons hFits make hBefore
      rw [created, hCreate]
      rfl
  | succ k ih =>
    cases rest with
    | nil =>
      rw [created, create_of_nil make hBefore, ih hBefore]
      rfl
    | cons p rest =>
      obtain ⟨g', hNext, hCreate⟩ := create_of_cons hFits make hBefore
      rw [created, hCreate, ih hNext]
      rfl

theorem runLoop_of_some (hFits : c.Fits) {make : ℤ → ℤ → Option α} {strategy : ℤ → ℤ → α}
    (hMake : ∀ p ∈ rest, make p.1 p.2 = some (strategy p.1 p.2)) (hBefore : Before c h g rest)
    {fuel : ℕ} (hFuel : rest.length < fuel) :
    runLoop c make fuel g = some (.done (rest.map fun p => strategy p.1 p.2)) := by
  induction rest generalizing g fuel with
  | nil =>
    obtain ⟨fuel, rfl⟩ := Nat.exists_eq_succ_of_ne_zero (Nat.ne_of_gt hFuel)
    rw [runLoop, create_of_nil make hBefore]
    rfl
  | cons p rest ih =>
    obtain ⟨hHere, hLater⟩ := List.forall_mem_cons.mp hMake
    obtain ⟨fuel, rfl⟩ := Nat.exists_eq_succ_of_ne_zero (Nat.ne_zero_of_lt hFuel)
    obtain ⟨g', hNext, hCreate⟩ := create_of_cons hFits make hBefore
    rw [runLoop, hCreate, hHere]
    dsimp only
    rw [ih hLater hNext (by simpa using hFuel)]
    rfl

/-! ### A constructor that always throws -/

theorem created_of_none {make : ℤ → ℤ → Option α} (hMake : ∀ m t, make m t = none) (k : ℕ)
    (g : Counters) (s : α) : created c make k g ≠ .strategy s := by
  induction k generalizing g with
  | zero =>
    rw [created, create]
    split
    · exact nofun
    · simp only [hMake]
      exact nofun
  | succ k ih => exact ih _

theorem optimizerRun_of_none {make : ℤ → ℤ → Option α} (hMake : ∀ m t, make m t = none)
    (h : c.minCandleStart ≤ c.minCandleEnd) (fuel : ℕ) :
    optimizerRun c make (fuel + 1) = some (.thrown []) := by
  have hStarted : ¬ c.minCandleEnd < (reset c).currentMinCandle := h.not_gt
  rw [optimizerRun, runLoop, create, if_neg hStarted]
  simp only [hMake]

end Fxquant.StrategyGenerator
