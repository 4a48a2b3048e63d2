import Fxquant.Common.Order
import Fxquant.Feeder.Feeders
import Fxquant.Library.OrderedMap

/-!
# The data of a GUI context

The `state_map_` of `gui_context.cpp`: the functions that add pending data to it, and the parts
of the sending functions that run under `data_lock_` and take data from it. An absent symbol
or time frame is inserted with what an empty one would get, so `state` and `pendingBars` read
it as empty.
-/

namespace Fxquant.Gui

open Feeder

/-- `order_info`; the event queue publishes clones, which do not change any more. -/
structure OrderInfo where
  order : Order
  action : OrderAction
  deriving DecidableEq

structure State where
  bars : OrderedMap ℕ (List BarData) := ∅
  ticks : List TickData := []
  orders : List OrderInfo := []
  info : String := ""

structure Context where
  stateMap : OrderedMap Symbol State := ∅

/-- A price times `scale`, truncated; prices from `2 ^ 31` thousandths on are left out. -/
def thousandths (price : ℚ) : ℤ := Doubles.trunc (Doubles.rounded (price * 1000))

def ticksEqual (a b : TickData) : Bool :=
  decide (thousandths a.ask = thousandths b.ask) && decide (thousandths a.bid = thousandths b.bid)

namespace Context

variable (ctx : Context) (sym : Symbol)

def state : State := (ctx.stateMap.find? sym).getD {}

def update (f : State → State) : Context := ⟨ctx.stateMap.put sym (f (ctx.state sym))⟩

def pendingBars (timeFrame : ℕ) : List BarData := ((ctx.state sym).bars.find? timeFrame).getD []

def setBars (timeFrame : ℕ) (v : List BarData) : Context :=
  ctx.update sym fun st => { st with bars := st.bars.put timeFrame v }

def addBar (timeFrame : ℕ) (bar : BarData) : Context × Bool :=
  let v := ctx.pendingBars sym timeFrame
  if v.getLast?.all (fun last => decide (last.t < bar.t)) then
    (ctx.setBars sym timeFrame (v ++ [bar]), true)
  else (ctx, false)

/-- The bars before the first pending one go in front of it, if the loop of `add_bars` finds one
that is not before it. -/
def insertBars (v bars : List BarData) : Option (List BarData) :=
  match v with
  | [] => some bars
  | first :: _ =>
    if bars.any fun bar => decide (first.t ≤ bar.t) then
      some (bars.takeWhile (fun bar => decide (bar.t < first.t)) ++ v)
    else none

def addBars (timeFrame : ℕ) (bars : List BarData) : Context × Bool :=
  if bars = [] then (ctx, false)
  else
    match insertBars (ctx.pendingBars sym timeFrame) bars with
    | some v => (ctx.setBars sym timeFrame v, true)
    | none => (ctx, false)

def addTick (tick : TickData) : Context × Bool :=
  if (ctx.state sym).ticks.getLast?.all fun last =>
      decide (last.time < tick.time) && !ticksEqual last tick then
    (ctx.update sym fun st => { st with ticks := [tick] }, true)
  else (ctx, false)

def addOrder (info : OrderInfo) : Context :=
  ctx.update info.order.symbol fun st => { st with orders := st.orders ++ [info] }

/-- The pending orders are swapped with a copy of the saved ones. -/
def addOrders (saved : List OrderInfo) : Context :=
  ctx.update sym fun st => { st with orders := saved }

def addInfo (xml : String) : Context := ctx.update sym fun st => { st with info := xml }

end Context

/-! ### What the sending functions take -/

structure Taken where
  sym : Symbol := .undefined
  timeFrame : ℕ := 0
  bars : List BarData := []
  deriving DecidableEq

/-- The inner loop of `send_bars`; its `break` ends this loop only. -/
def takeBarsOf (acc : Taken) (sym : Symbol) (st : State) : Taken × State × Bool :=
  let (acc, bars) := st.bars.visit acc fun acc timeFrame v =>
    if v ≠ [] then (⟨sym, timeFrame, v⟩, acc.bars, true) else (acc, v, false)
  (acc, { st with bars }, false)

namespace Context

variable (ctx : Context)

def takeBars : Taken × Context :=
  let (taken, stateMap) := ctx.stateMap.visit {} takeBarsOf
  (taken, ⟨stateMap⟩)

/-- The loop that swaps the first value which is not empty out of the symbols, and breaks. -/
def takeFirst {α : Type} [DecidableEq α] (empty : α) (get : State → α) (set : α → State → State) :
    α × Context :=
  let (taken, stateMap) := ctx.stateMap.visit empty fun taken _ st =>
    if get st ≠ empty then (get st, set taken st, true) else (taken, st, false)
  (taken, ⟨stateMap⟩)

def takeOrders : List OrderInfo × Context :=
  ctx.takeFirst [] State.orders fun orders st => { st with orders }

def takeInfo : String × Context := ctx.takeFirst "" State.info fun info st => { st with info }

/-- The keys of `ticks_to_send` come in their order. -/
def takeTicks : List (Symbol × TickData) × Context :=
  let (ticks, stateMap) := ctx.stateMap.visit [] fun ticks sym st =>
    match st.ticks.getLast? with
    | some last => (ticks ++ [(sym, last)], { st with ticks := [] }, false)
    | none => (ticks, st, false)
  (ticks, ⟨stateMap⟩)

end Context

/-! ### Reading what was written -/

namespace Context

variable (ctx : Context)

@[simp] theorem state_update_self (sym : Symbol) (f : State → State) :
    (ctx.update sym f).state sym = f (ctx.state sym) := by
  rw [state, update, OrderedMap.find?_put_self]
  rfl

theorem state_update_of_ne {sym sym' : Symbol} (f : State → State) (h : sym' ≠ sym) :
    (ctx.update sym f).state sym' = ctx.state sym' := by
  rw [state, update, OrderedMap.find?_put_of_ne _ _ h]
  rfl

@[simp] theorem pendingBars_setBars_self (sym : Symbol) (timeFrame : ℕ) (v : List BarData) :
    (ctx.setBars sym timeFrame v).pendingBars sym timeFrame = v := by
  simp [pendingBars, setBars]

theorem pendingBars_setBars_of_ne {sym sym' : Symbol} {timeFrame timeFrame' : ℕ}
    (v : List BarData) (h : ¬(sym' = sym ∧ timeFrame' = timeFrame)) :
    (ctx.setBars sym timeFrame v).pendingBars sym' timeFrame' = ctx.pendingBars sym' timeFrame' := by
  rw [pendingBars, pendingBars, setBars]
  by_cases hSym : sym' = sym
  · subst hSym
    rw [state_update_self, OrderedMap.find?_put_of_ne _ _ fun hFrame => h ⟨rfl, hFrame⟩]
  · rw [state_update_of_ne _ _ hSym]

theorem pendingBars_addBar_self (sym : Symbol) (timeFrame : ℕ) (bar : BarData) :
    (ctx.addBar sym timeFrame bar).1.pendingBars sym timeFrame =
      if (ctx.pendingBars sym timeFrame).getLast?.all (fun last => decide (last.t < bar.t)) then
        ctx.pendingBars sym timeFrame ++ [bar]
      else ctx.pendingBars sym timeFrame := by
  rw [addBar]
  split
  · exact ctx.pendingBars_setBars_self sym timeFrame _
  · rfl

theorem pendingBars_addBar_of_ne {sym sym' : Symbol} {timeFrame timeFrame' : ℕ} (bar : BarData)
    (h : ¬(sym' = sym ∧ timeFrame' = timeFrame)) :
    (ctx.addBar sym timeFrame bar).1.pendingBars sym' timeFrame' =
      ctx.pendingBars sym' timeFrame' := by
  rw [addBar]
  split
  · exact ctx.pendingBars_setBars_of_ne _ h
  · rfl

theorem mem_of_mem_insertBars {v bars : List BarData} {bar : BarData}
    (h : bar ∈ (insertBars v bars).getD v) : bar ∈ v ∨ bar ∈ bars := by
  cases v with
  | nil => exact .inr h
  | cons first v =>
    rw [insertBars] at h
    split at h
    · cases List.mem_append.mp h with
      | inl h => exact .inr ((List.takeWhile_sublist _).subset h)
      | inr h => exact .inl h
    · exact .inl h

theorem pendingBars_addBars_self (sym : Symbol) (timeFrame : ℕ) {bars : List BarData}
    (h : bars ≠ []) : (ctx.addBars sym timeFrame bars).1.pendingBars sym timeFrame =
      (insertBars (ctx.pendingBars sym timeFrame) bars).getD (ctx.pendingBars sym timeFrame) := by
  rw [addBars, if_neg h]
  cases insertBars (ctx.pendingBars sym timeFrame) bars with
  | none => rfl
  | some v => exact ctx.pendingBars_setBars_self sym timeFrame v

theorem pendingBars_addBars_of_ne {sym sym' : Symbol} {timeFrame timeFrame' : ℕ}
    (bars : List BarData) (h : ¬(sym' = sym ∧ timeFrame' = timeFrame)) :
    (ctx.addBars sym timeFrame bars).1.pendingBars sym' timeFrame' =
      ctx.pendingBars sym' timeFrame' := by
  rw [addBars]
  split
  · rfl
  · cases insertBars (ctx.pendingBars sym timeFrame) bars with
    | none => rfl
    | some v => exact ctx.pendingBars_setBars_of_ne v h

/-- A context that gets such values for one symbol only. -/
theorem takeFirst_of_only {α : Type} [DecidableEq α] {empty : α} {get : State → α}
    {set : α → State → State} (hSet : ∀ a st, get (set a st) = a) (hNew : get {} = empty)
    {sym : Symbol} (h : ∀ sym', sym' ≠ sym → get (ctx.state sym') = empty) :
    (ctx.takeFirst empty get set).1 = get (ctx.state sym) ∧
      ∀ sym', get ((ctx.takeFirst empty get set).2.state sym') = empty := by
  have hState : ∀ sym' st, ctx.stateMap.find? sym' = some st → ctx.state sym' = st := by
    intro sym' st hFind
    rw [state, hFind]
    rfl
  have hLoop := OrderedMap.visit_until (p := fun _ st => decide (get st ≠ empty))
    (f := fun taken (_ : Symbol) st =>
      if get st ≠ empty then (get st, set taken st, true) else (taken, st, false))
    (fun s k v h => by simp_all) (fun s k v h => by simp_all) ctx.stateMap empty
  rw [takeFirst]
  cases hLoop with
  | inl hNone =>
    obtain ⟨hEmpty, hVisit⟩ := hNone
    have hAll : ∀ sym', get (ctx.state sym') = empty := by
      intro sym'
      cases hFind : ctx.stateMap.find? sym' with
      | none =>
        rw [state, hFind]
        exact hNew
      | some st =>
        rw [hState sym' st hFind]
        simpa using hEmpty sym' st hFind
    rw [hVisit]
    exact ⟨(hAll sym).symm, hAll⟩
  | inr hSome =>
    obtain ⟨sym', st, hFind, hNe, hVisit⟩ := hSome
    have hHere : get st ≠ empty := by simpa using hNe
    have hSym : sym' = sym := by
      by_contra hOther
      exact hHere (hState sym' st hFind ▸ h sym' hOther)
    subst hSym
    rw [hVisit, if_pos hHere, hState sym' st hFind]
    refine ⟨rfl, fun sym'' => ?_⟩
    cases eq_or_ne sym'' sym' with
    | inl hSame =>
      rw [hSame, state, OrderedMap.find?_put_self]
      exact hSet empty st
    | inr hOther =>
      rw [state, OrderedMap.find?_put_of_ne _ _ hOther]
      exact h sym'' hOther

end Context

end Fxquant.Gui
