import Fxquant.Ladder.LevelRounding
import Fxquant.Ladder.Reachable

/-!
# The cap on the orders of a level

The levels of the grid are numbered by the whole steps below the mid price. `on_level` does not
compare these numbers but `nearest_lvl * 10000`, truncated. The nearest level keeps the half point
of the mid price, and the last digits of the doubles, so ticks of one level can have two such keys.
-/

namespace Fxquant.Ladder

open FxEngine Doubles

/-- The number of whole steps below the mid price of a tick. -/
def gridIndex (env : Env) (tick : TickData) : ℤ :=
  (wholePoints env tick).fdiv env.params.step

def isOn (env : Env) (type : OrderType) (g : ℤ) (o : Order) : Bool :=
  o.type == type && o.openTick.any fun tick => gridIndex env tick == g

def openOn (env : Env) (e : FxEngine) (type : OrderType) (g : ℤ) : List Ptr :=
  e.openedOrders.filter fun p => isOn env type g (e.heap p)

def CapHolds (env : Env) (e : FxEngine) : Prop :=
  ∀ type g, ((openOn env e type g).length : ℤ) ≤ env.params.tradesPerLvl

/-- The cap holds once a tick has opened its orders, and at its end. -/
def TickCaps (env : Env) (s : State) (tick : TickData) : Prop :=
  CapHolds env (s.opened env tick).engine ∧ CapHolds env (s.onTick env tick).engine

/-- What `on_level` compares of the level of a tick. -/
def levelKey (env : Env) (tick : TickData) : ℤ :=
  env.toInt (.fin (rounded (State.levelOf env tick * 10000)))

/-- The tests of `try_opening_orders` that look at the tick alone. -/
def touchesLevel (env : Env) (tick : TickData) : Bool :=
  State.isSpreadWithinLimit env tick &&
    decide (|rounded (tick.midPrice - State.levelOf env tick)| ≤
      rounded (env.params.lvlTolerance * env.roundedPoint))

/-- A tick that touches its level has the key of the ticks that opened the open orders of its grid
index. -/
def LevelsTold (env : Env) (s : State) (tick : TickData) : Prop :=
  touchesLevel env tick = true → ∀ p ∈ s.engine.openedOrders,
    ∀ opening ∈ (s.engine.heap p).openTick, gridIndex env opening = gridIndex env tick →
      levelKey env opening = levelKey env tick

instance (env : Env) (s : State) (tick : TickData) : Decidable (LevelsTold env s tick) :=
  inferInstanceAs (Decidable (_ → _))

theorem isOn_of_terms {env : Env} {type : OrderType} {g : ℤ} {o o' : Order}
    (h : o'.terms = o.terms) : isOn env type g o' = isOn env type g o := by
  rw [isOn, isOn, Order.type_of_terms h, Order.openTick_of_terms h]

theorem CapHolds.of_onlyCloses {env : Env} {s s' : State} (h : CapHolds env s.engine)
    (hCloses : OnlyCloses s s') : CapHolds env s'.engine := by
  intro type g
  have hSame : openOn env s'.engine type g =
      s'.engine.openedOrders.filter fun p => isOn env type g (s.engine.heap p) := by
    rw [openOn]
    exact List.filter_congr fun p _ => isOn_of_terms (hCloses.terms p)
  have hSub := (hCloses.openedOrders.filter fun p => isOn env type g (s.engine.heap p)).length_le
  rw [hSame]
  exact (Int.ofNat_le.mpr hSub).trans (h type g)

theorem Sends.length_openOn {env : Env} {e e' : FxEngine} {tick : TickData} {type : OrderType}
    {b : Bool} (h : Sends e e' tick type b) (hAllocated : ∀ p ∈ e.openedOrders, p < e.nextPtr)
    (type' : OrderType) (g : ℤ) :
    (openOn env e' type' g).length = (openOn env e type' g).length +
      if b = true ∧ type' = type ∧ g = gridIndex env tick then 1 else 0 := by
  have hOld : e.openedOrders.filter (fun p => isOn env type' g (e'.heap p)) = openOn env e type' g :=
    List.filter_congr fun p hp => by rw [h.old p (hAllocated p hp)]
  rw [openOn, h.openedOrders, List.filter_append, List.length_append, hOld]
  congr 1
  cases b with
  | false => rfl
  | true =>
    obtain ⟨hType, hTick⟩ := h.new rfl
    have hNew : isOn env type' g (e'.heap e.nextPtr) = true ↔ type' = type ∧ g = gridIndex env tick := by
      rw [isOn, hType, hTick, Option.any_some, Bool.and_eq_true, beq_iff_eq, beq_iff_eq,
        eq_comm (a := type), eq_comm (a := gridIndex env tick)]
    rw [if_pos rfl, List.filter_singleton]
    cases hOn : isOn env type' g (e'.heap e.nextPtr) with
    | true => rw [if_pos ⟨rfl, hNew.mp hOn⟩]; rfl
    | false =>
      rw [if_neg fun hIndex => Bool.eq_false_iff.mp hOn (hNew.mpr hIndex.2)]
      rfl

theorem length_openOn_opened {env : Env} {s : State} (tick : TickData) (h : s.engine.BookInv [])
    (type : OrderType) (g : ℤ) :
    (openOn env (s.opened env tick).engine type g).length = (openOn env s.engine type g).length +
      (if opens env s tick .buyOrder = true ∧ type = .buyOrder ∧ g = gridIndex env tick then 1 else 0) +
      if opens env s tick .sellOrder = true ∧ type = .sellOrder ∧ g = gridIndex env tick
        then 1 else 0 := by
  obtain ⟨e, hBuy, hSell⟩ := sends_opened env s tick
  have hAllocated : ∀ p ∈ s.engine.openedOrders, p < s.engine.nextPtr :=
    fun p hp => h.allocated p (by simp [hp])
  rw [hSell.length_openOn (hBuy.allocated hAllocated), hBuy.length_openOn hAllocated]

theorem touchesLevel_of_opens {env : Env} {s : State} {tick : TickData} {type : OrderType}
    (h : opens env s tick type = true) : touchesLevel env tick = true := by
  simp only [opens, sends, asks, State.passesTests, Bool.and_eq_true,
    (State.initializeCompute_compute env s tick).1] at h
  rw [touchesLevel, Bool.and_eq_true]
  exact ⟨h.1.1, h.1.2.1⟩

theorem sideCount_lt_of_opens {env : Env} {s : State} {tick : TickData} {type : OrderType}
    (h : opens env s tick type = true) :
    ((s.initializeCompute env tick).sideCount env type : ℤ) < env.params.tradesPerLvl := by
  simp only [opens, sends, asks, State.passesTests, Bool.and_eq_true, decide_eq_true_eq] at h
  exact h.1.2.2.1

/-- `on_level` compares the keys of the tick that opened the order and of the tick of the level. -/
theorem onLevel_iff {env : Env} {s : State} (hInv : Inv env s) (tick : TickData) {p : Ptr}
    (hp : p ∈ s.engine.openedOrders) {opening : TickData}
    (hOpening : (s.engine.heap p).openTick = some opening) :
    (s.initializeCompute env tick).onLevel env (State.levelOf env tick) p = true ↔
      levelKey env opening = levelKey env tick := by
  obtain ⟨_, _, _, t, cd, hTick, _, hData, _, hLevel⟩ :=
    hInv.orders p (hInv.book.allocated p (by simp [hp]))
  obtain rfl : t = opening := Option.some.inj (hTick.symm.trans hOpening)
  obtain ⟨hEngine, _, _, _, hCustom⟩ := State.initializeCompute_frame env s tick
  rw [State.onLevel, hEngine]
  simp only [hData, hCustom, hLevel, beq_iff_eq, levelKey]

/-- A tick that opens an order counts all orders of its level. -/
theorem length_openOn_le {env : Env} {s : State} {tick : TickData} {type : OrderType}
    (hType : type = .buyOrder ∨ type = .sellOrder) (hInv : Inv env s)
    (hTold : LevelsTold env s tick) (hOpens : opens env s tick type = true) :
    (openOn env s.engine type (gridIndex env tick)).length ≤
      (s.initializeCompute env tick).sideCount env type := by
  rw [openOn, State.sideCount, (State.initializeCompute_compute env s tick).1,
    State.initializeCompute_engine, List.filter_filter, ← List.countP_eq_length_filter,
    ← List.countP_eq_length_filter]
  apply List.countP_mono_left
  intro p hMem hOn
  rw [isOn, Bool.and_eq_true, beq_iff_eq, Option.any_eq_true] at hOn
  obtain ⟨hSide, opening, hOpening, hIndex⟩ := hOn
  have hKey := hTold (touchesLevel_of_opens hOpens) p hMem opening hOpening (beq_iff_eq.mp hIndex)
  have hSees := (onLevel_iff hInv tick hMem hOpening).mpr hKey
  rcases hType with rfl | rfl <;> simp [hSees, State.isBuy, hSide]

theorem capHolds_opened {env : Env} {s : State} {tick : TickData} (hInv : Inv env s)
    (hCap : CapHolds env s.engine) (hTold : LevelsTold env s tick) :
    CapHolds env (s.opened env tick).engine := by
  intro type g
  rw [length_openOn_opened tick hInv.book]
  have hRoom : ∀ type, type = .buyOrder ∨ type = .sellOrder → opens env s tick type = true →
      ((openOn env s.engine type (gridIndex env tick)).length : ℤ) < env.params.tradesPerLvl := by
    intro type hType hOpens
    exact lt_of_le_of_lt (Int.ofNat_le.mpr (length_openOn_le hType hInv hTold hOpens))
      (sideCount_lt_of_opens hOpens)
  have hBefore := hCap type g
  by_cases hBuy : opens env s tick .buyOrder = true ∧ type = .buyOrder ∧ g = gridIndex env tick
  · obtain ⟨hOpens, rfl, rfl⟩ := hBuy
    have := hRoom .buyOrder (.inl rfl) hOpens
    simp only [hOpens, reduceCtorEq, and_self, false_and, and_false, if_true, if_false]
    omega
  · by_cases hSell : opens env s tick .sellOrder = true ∧ type = .sellOrder ∧ g = gridIndex env tick
    · obtain ⟨hOpens, rfl, rfl⟩ := hSell
      have := hRoom .sellOrder (.inr rfl) hOpens
      simp only [hOpens, reduceCtorEq, and_self, false_and, and_false, if_true, if_false]
      omega
    · rw [if_neg hBuy, if_neg hSell]
      exact hBefore

def yenByTens : Env where
  symbol := .usdjpy
  params := {
    volume := 1 / 10, sl := 1000, tp := 1000, softTp := 0, step := 10, lvlTolerance := 5
    tradesPerLvl := 1, closeCycleOnProfit := 0, sectionsInHalfRange := 100, sectionsOffset := 0
    maxLotsAllowed := 0, maxSpread := 0, plr := 0 }
  outOfRange := fun _ => Doubles.intMin
  accepted := by decide +kernel

end Fxquant.Ladder
