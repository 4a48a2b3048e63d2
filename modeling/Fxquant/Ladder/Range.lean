import Fxquant.Ladder.LevelRounding
import Fxquant.Ladder.Reachable

/-!
# When the range is positive

`set_section_i_am_in` divides by `range_`, the distance between the extreme prices among the bid
and the open prices of the book, rounded to whole points. It is positive unless all of them are
within half a point, as the doubles have it.
-/

namespace Fxquant.Ladder

open Compute Doubles

/-- Choosing between the bid and a best price `m` gives a best one of both: `r` is either order. -/
theorem stretch_spec {r : ℚ → ℚ → Prop} [Std.Refl r] [IsTrans ℚ r] {bid m : ℚ} {prices : List ℚ}
    {c : Prop} [Decidable c] (hMem : m ∈ prices) (hBest : ∀ x ∈ prices, r x m) (hPos : c → r m bid)
    (hNeg : ¬ c → r bid m) :
    (if c then bid else m) ∈ bid :: prices ∧ ∀ x ∈ bid :: prices, r x (if c then bid else m) := by
  split
  · rename_i hc
    refine ⟨List.mem_cons_self, fun x hx => ?_⟩
    cases hx with
    | head => exact refl_of r bid
    | tail _ hx => exact trans_of r (hBest x hx) (hPos hc)
  · rename_i hc
    refine ⟨List.mem_cons_of_mem _ hMem, fun x hx => ?_⟩
    cases hx with
    | head => exact hNeg hc
    | tail _ hx => exact hBest x hx

theorem maxOf_spec (bid : ℚ) (prices : List ℚ) :
    maxOf bid prices ∈ bid :: prices ∧ ∀ x ∈ bid :: prices, x ≤ maxOf bid prices := by
  cases prices with
  | nil => simp [maxOf]
  | cons price prices =>
    exact stretch_spec (r := (· ≤ ·)) (List.max_mem (List.cons_ne_nil price prices))
      (fun _ hx => List.le_max_of_mem hx) le_of_lt not_lt.mp

theorem minOf_spec (bid : ℚ) (prices : List ℚ) :
    minOf bid prices ∈ bid :: prices ∧ ∀ x ∈ bid :: prices, minOf bid prices ≤ x := by
  cases prices with
  | nil => simp [minOf]
  | cons price prices =>
    exact stretch_spec (r := (· ≥ ·)) (List.min_mem (List.cons_ne_nil price prices))
      (fun _ hx => List.min_le_of_mem hx) le_of_lt not_lt.mp

/-- The empty book has a range of its own; in another, two of the prices that span the range are
at least half a point apart. -/
def PricesApart (env : Env) (s : State) (tick : TickData) : Prop :=
  s.engine.openedOrders = [] ∨
    ∃ x ∈ tick.bid :: openPrices s.engine, ∃ y ∈ tick.bid :: openPrices s.engine,
      1 / 2 ≤ rounded (rounded (x - y) * 10 ^ decimals env.symbol)

theorem range_pos_iff (env : Env) (s : State) (tick : TickData) :
    0 < (s.initializeCompute env tick).compute.range ↔ PricesApart env s tick := by
  obtain ⟨hMaxMem, hMax⟩ := maxOf_spec tick.bid (openPrices s.engine)
  obtain ⟨hMinMem, hMin⟩ := minOf_spec tick.bid (openPrices s.engine)
  have hOrder : 0 ≤ maxOf tick.bid (openPrices s.engine) - minOf tick.bid (openPrices s.engine) :=
    sub_nonneg.mpr (hMin _ hMaxMem)
  rw [(State.initializeCompute_compute env s tick).2.2.2, PricesApart]
  split
  · rename_i hEmpty
    exact iff_of_true (env.point_pos.trans_le env.roundedPoint_bounds.1) (.inl hEmpty)
  · rename_i hBook
    rw [roundedNormalize_pos_iff env.symbol (rounded_nonneg hOrder), or_iff_right hBook]
    constructor
    · exact fun hApart => ⟨_, hMaxMem, _, hMinMem, hApart⟩
    · rintro ⟨x, hx, y, hy, hApart⟩
      have hWider := rounded_mono (sub_le_sub (hMax x hx) (hMin y hy))
      exact hApart.trans
        (rounded_mono (mul_le_mul_of_nonneg_right hWider (pow_nonneg (by norm_num) _)))

def tenPoints : Env where
  symbol := .eurusd
  params := {
    volume := 1 / 10, sl := 1000, tp := 10, softTp := 0, step := 100, lvlTolerance := 5
    tradesPerLvl := 1, closeCycleOnProfit := 0, sectionsInHalfRange := 100, sectionsOffset := 0
    maxLotsAllowed := 0, maxSpread := 0, plr := 0 }
  outOfRange := fun _ => Doubles.intMin
  accepted := by decide +kernel

end Fxquant.Ladder
