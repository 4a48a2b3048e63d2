import Fxquant.Ladder.Reachable

/-!
# The spread limit

`is_spread_within_limit` compares the spread, which is a price, with `max_spread`, which is a
number of points. The limit is kept where one of the other tests of `try_opening_orders` stops
the ticks whose spread lies between the two readings of `max_spread`.
-/

namespace Fxquant.Ladder

/-- No order was opened on a tick with a spread of more than `max_spread` points. -/
def SpreadKept (env : Env) (s : State) : Prop :=
  OpenedOn (fun tick => tick.spread ≤ env.params.maxSpread * env.point) s

def opensUnlessSpread (env : Env) (s : State) (tick : TickData) (type : OrderType) : Bool :=
  sends env tick type ((s.initializeCompute env tick).passesTests env tick type)

/-- The spread is within its limit, or so wide that its size as a price exceeds the number of
points, or no order would be opened on the tick anyway. -/
def SpreadTold (env : Env) (s : State) (tick : TickData) : Prop :=
  tick.spread ≤ env.params.maxSpread * env.point ∨ (env.params.maxSpread : ℚ) < tick.spread ∨
    (opensUnlessSpread env s tick .buyOrder = false ∧
      opensUnlessSpread env s tick .sellOrder = false)

theorem opens_eq (env : Env) (s : State) (tick : TickData) (type : OrderType) :
    opens env s tick type =
      (State.isSpreadWithinLimit env tick && opensUnlessSpread env s tick type) := by
  rw [opens, opensUnlessSpread, sends, sends, asks, Bool.and_assoc]

theorem isSpreadWithinLimit_iff {env : Env} (tick : TickData) (hSpread : 0 < env.params.maxSpread) :
    State.isSpreadWithinLimit env tick = true ↔ tick.spread ≤ env.params.maxSpread := by
  rw [State.isSpreadWithinLimit, if_neg (not_le.mpr hSpread), decide_eq_true_eq]

theorem spreadTold_iff {env : Env} {s : State} {tick : TickData}
    (hSpread : 0 < env.params.maxSpread) : SpreadTold env s tick ↔
      (s.engine.nextPtr < (s.opened env tick).engine.nextPtr →
        tick.spread ≤ env.params.maxSpread * env.point) := by
  have hOpens : s.engine.nextPtr < (s.opened env tick).engine.nextPtr ↔
      tick.spread ≤ env.params.maxSpread ∧ ¬ (opensUnlessSpread env s tick .buyOrder = false ∧
        opensUnlessSpread env s tick .sellOrder = false) := by
    rw [nextPtr_opened, opens_eq, opens_eq, ← isSpreadWithinLimit_iff tick hSpread]
    cases State.isSpreadWithinLimit env tick <;> cases opensUnlessSpread env s tick .buyOrder <;>
      cases opensUnlessSpread env s tick .sellOrder <;> simp [Nat.add_assoc]
  rw [hOpens, SpreadTold, ← not_le]
  tauto

def fifteenPoints : Env where
  symbol := .eurusd
  params := {
    volume := 1 / 10, sl := 50, tp := 50, softTp := 0, step := 100, lvlTolerance := 15
    tradesPerLvl := 1, closeCycleOnProfit := 0, sectionsInHalfRange := 100, sectionsOffset := 0
    maxLotsAllowed := 0, maxSpread := 15, plr := 0 }
  outOfRange := fun _ => Doubles.intMin
  accepted := by decide +kernel

end Fxquant.Ladder
