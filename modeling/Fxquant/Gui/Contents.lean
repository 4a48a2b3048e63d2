import Mathlib.Algebra.Order.Group.Multiset
import Fxquant.Gui.SendBars

/-!
# All that is pending in a context

The bars and order events of all symbols together, whatever label they are under. The functions
that add data add to them, and those that take data take from them what they answer.
-/

namespace Fxquant.Gui

open Feeder

def State.allBars (st : State) : Multiset BarData := st.bars.sumOf Multiset.ofList

/-- The number of vectors of bars that are not empty. -/
def State.vectorCount (st : State) : ℕ := st.bars.sumOf fun v => if v = [] then 0 else 1

namespace Context

variable (ctx : Context)

def allBars : Multiset BarData := ctx.stateMap.sumOf State.allBars

def vectorCount : ℕ := ctx.stateMap.sumOf State.vectorCount

def allOrders : Multiset OrderInfo := ctx.stateMap.sumOf fun st => Multiset.ofList st.orders

/-- The number of symbols with order events. -/
def orderCount : ℕ := ctx.stateMap.sumOf fun st => if st.orders = [] then 0 else 1

/-! ### Adding -/

theorem sumOf_update {M : Type*} [AddCommMonoid M] {g : State → M} (hNew : g {} = 0) (sym : Symbol)
    (f : State → State) : (ctx.update sym f).stateMap.sumOf g + g (ctx.state sym) =
      ctx.stateMap.sumOf g + g (f (ctx.state sym)) :=
  OrderedMap.sumOf_put hNew ctx.stateMap sym (f (ctx.state sym))

theorem allBars_setBars (sym : Symbol) (timeFrame : ℕ) (v : List BarData) :
    (ctx.setBars sym timeFrame v).allBars + ↑(ctx.pendingBars sym timeFrame) = ctx.allBars + ↑v := by
  have hState : (ctx.setBars sym timeFrame v).allBars + (ctx.state sym).allBars = ctx.allBars +
      ((ctx.state sym).bars.put timeFrame v).sumOf Multiset.ofList :=
    ctx.sumOf_update (g := State.allBars) rfl sym _
  have hBars : ((ctx.state sym).bars.put timeFrame v).sumOf Multiset.ofList +
      ↑(ctx.pendingBars sym timeFrame) = (ctx.state sym).allBars + ↑v :=
    OrderedMap.sumOf_put (g := Multiset.ofList) (d := []) rfl (ctx.state sym).bars timeFrame v
  have hAll : (ctx.setBars sym timeFrame v).allBars + ↑(ctx.pendingBars sym timeFrame) +
      (ctx.state sym).allBars = ctx.allBars + ↑v + (ctx.state sym).allBars := by
    rw [add_right_comm, hState, add_assoc, hBars, add_assoc, add_comm (State.allBars _)]
  exact add_right_cancel hAll

/-- A bar that is accepted is one more. -/
theorem allBars_addBar (sym : Symbol) (timeFrame : ℕ) (bar : BarData) :
    (ctx.addBar sym timeFrame bar).1.allBars =
      ctx.allBars + if (ctx.addBar sym timeFrame bar).2 then {bar} else 0 := by
  rw [addBar]
  split
  · have hSet := ctx.allBars_setBars sym timeFrame (ctx.pendingBars sym timeFrame ++ [bar])
    rw [← Multiset.coe_add, ← add_assoc, add_right_comm] at hSet
    exact add_right_cancel hSet
  · simp

theorem allBars_update {f : State → State} (hBars : ∀ st, (f st).bars = st.bars) (sym : Symbol) :
    (ctx.update sym f).allBars = ctx.allBars := by
  have hState := ctx.sumOf_update (g := State.allBars) rfl sym f
  rw [State.allBars, State.allBars, hBars] at hState
  exact add_right_cancel hState

theorem allBars_addTick (sym : Symbol) (tick : TickData) :
    (ctx.addTick sym tick).1.allBars = ctx.allBars := by
  rw [addTick]
  split
  · exact ctx.allBars_update (f := fun st => { st with ticks := [tick] }) (fun _ => rfl) sym
  · rfl

theorem allOrders_update {f : State → State} (added : List OrderInfo)
    (hOrders : ∀ st, (f st).orders = st.orders ++ added) (sym : Symbol) :
    (ctx.update sym f).allOrders = ctx.allOrders + ↑added := by
  have hState : (ctx.update sym f).allOrders + ↑(ctx.state sym).orders =
      ctx.allOrders + ↑(f (ctx.state sym)).orders :=
    ctx.sumOf_update (g := fun st => Multiset.ofList st.orders) rfl sym f
  rw [hOrders, ← Multiset.coe_add, ← add_assoc, add_right_comm] at hState
  exact add_right_cancel hState

/-! ### Taking -/

theorem takeBarsOf_conserves {M : Type*} [AddCommMonoid M] {g : List BarData → M} (acc : Taken)
    (sym : Symbol) (st : State) : g (takeBarsOf acc sym st).1.bars +
        (takeBarsOf acc sym st).2.1.bars.sumOf g = g acc.bars + st.bars.sumOf g := by
  refine OrderedMap.visit_conserves (a := fun acc : Taken => g acc.bars) ?_ acc st.bars
  intro acc timeFrame v
  split
  · exact add_comm _ _
  · rfl

/-- A call of `send_bars` moves vectors about, and takes out the one that it answers. -/
theorem takeBars_conserves {M : Type*} [AddCommMonoid M] {g : List BarData → M} (hNil : g [] = 0) :
    g ctx.takeBars.1.bars + ctx.takeBars.2.stateMap.sumOf (fun st => st.bars.sumOf g) =
      ctx.stateMap.sumOf fun st => st.bars.sumOf g := by
  have hLoop := OrderedMap.visit_conserves (a := fun acc : Taken => g acc.bars)
    (g := fun st : State => st.bars.sumOf g) (fun acc sym st => takeBarsOf_conserves acc sym st)
    {} ctx.stateMap
  rwa [hNil, zero_add] at hLoop

theorem allBars_takeBars : ↑ctx.takeBars.1.bars + ctx.takeBars.2.allBars = ctx.allBars :=
  ctx.takeBars_conserves (g := Multiset.ofList) rfl

theorem vectorCount_takeBars :
    (if ctx.takeBars.1.bars = [] then 0 else 1) + ctx.takeBars.2.vectorCount = ctx.vectorCount :=
  ctx.takeBars_conserves (g := fun v => if v = [] then 0 else 1) rfl

theorem takeFirst_conserves {M : Type*} [AddCommMonoid M] {α : Type} [DecidableEq α] {empty : α}
    {get : State → α} {set : α → State → State} {g : α → M} (hSet : ∀ a st, get (set a st) = a)
    (hEmpty : g empty = 0) :
    g (ctx.takeFirst empty get set).1 +
        (ctx.takeFirst empty get set).2.stateMap.sumOf (fun st => g (get st)) =
      ctx.stateMap.sumOf fun st => g (get st) := by
  have hLoop := OrderedMap.visit_conserves (a := g) (g := fun st : State => g (get st))
    (f := fun taken (_ : Symbol) st =>
      if get st ≠ empty then (get st, set taken st, true) else (taken, st, false)) (by
    intro taken sym st
    split
    · rw [hSet]
      exact add_comm _ _
    · rfl) empty ctx.stateMap
  rwa [hEmpty, zero_add] at hLoop

theorem allOrders_takeOrders : ↑ctx.takeOrders.1 + ctx.takeOrders.2.allOrders = ctx.allOrders :=
  ctx.takeFirst_conserves (g := Multiset.ofList) (fun _ _ => rfl) rfl

theorem orderCount_takeOrders :
    (if ctx.takeOrders.1 = [] then 0 else 1) + ctx.takeOrders.2.orderCount = ctx.orderCount :=
  ctx.takeFirst_conserves (g := fun v => if v = [] then 0 else 1) (fun _ _ => rfl) rfl

/-! ### What a function leaves -/

theorem state_eq_of_reads {β : Type*} {read : State → β} {ctx ctx' : Context}
    (h : ∀ sym, (ctx'.stateMap.find? sym).map read = (ctx.stateMap.find? sym).map read) (sym : Symbol) :
    read (ctx'.state sym) = read (ctx.state sym) := by
  have hSome : ∀ o : Option State, read (o.getD {}) = (o.map read).getD (read {}) := by
    intro o
    cases o with
    | none => rfl
    | some st => rfl
  rw [state, state, hSome, hSome, h sym]

theorem update_reads {β : Type*} {read : State → β} {f : State → State}
    (hUpdate : ∀ st, read (f st) = read st) (sym sym' : Symbol) :
    read ((ctx.update sym f).state sym') = read (ctx.state sym') := by
  by_cases hSym : sym' = sym
  · subst hSym
    rw [state_update_self, hUpdate]
  · rw [state_update_of_ne ctx f hSym]

theorem takeBars_reads {β : Type*} {read : State → β} (hBars : ∀ st bars, read { st with bars } = read st)
    (sym : Symbol) : read (ctx.takeBars.2.state sym) = read (ctx.state sym) := by
  apply state_eq_of_reads
  apply OrderedMap.visit_reads
  exact fun acc _ st => hBars st _

theorem takeFirst_reads {β : Type*} {read : State → β} {α : Type} [DecidableEq α] {empty : α}
    {get : State → α} {set : α → State → State} (hSet : ∀ a st, read (set a st) = read st)
    (sym : Symbol) : read ((ctx.takeFirst empty get set).2.state sym) = read (ctx.state sym) := by
  apply state_eq_of_reads
  apply OrderedMap.visit_reads
  intro taken _ st
  split
  · exact hSet taken st
  · rfl

theorem takeTicks_reads {β : Type*} {read : State → β}
    (hTicks : ∀ st ticks, read { st with ticks } = read st) (sym : Symbol) :
    read (ctx.takeTicks.2.state sym) = read (ctx.state sym) := by
  apply state_eq_of_reads
  apply OrderedMap.visit_reads
  intro ticks _ st
  split
  · exact hTicks st []
  · rfl

/-- What a function that takes one kind of data leaves of the others, summed up. -/
theorem takeFirst_sumOf {M : Type*} [AddCommMonoid M] {α : Type} [DecidableEq α] {empty : α}
    {get : State → α} {set : α → State → State} {g : State → M} (hSet : ∀ a st, g (set a st) = g st) :
    (ctx.takeFirst empty get set).2.stateMap.sumOf g = ctx.stateMap.sumOf g := by
  apply OrderedMap.sumOf_visit
  intro taken _ st
  split
  · exact hSet taken st
  · rfl

theorem takeTicks_sumOf {M : Type*} [AddCommMonoid M] {g : State → M}
    (hTicks : ∀ st ticks, g { st with ticks } = g st) :
    ctx.takeTicks.2.stateMap.sumOf g = ctx.stateMap.sumOf g := by
  apply OrderedMap.sumOf_visit
  intro ticks _ st
  split
  · exact hTicks st []
  · rfl

theorem takeBars_sumOf {M : Type*} [AddCommMonoid M] {g : State → M}
    (hBars : ∀ st bars, g { st with bars } = g st) :
    ctx.takeBars.2.stateMap.sumOf g = ctx.stateMap.sumOf g := by
  apply OrderedMap.sumOf_visit
  exact fun acc _ st => hBars st _

/-- A function that answers the empty value has found no other. -/
theorem takeFirst_eq_empty {α : Type} [DecidableEq α] {empty : α} {get : State → α}
    {set : α → State → State} (hNew : get {} = empty)
    (h : (ctx.takeFirst empty get set).1 = empty) (sym : Symbol) :
    get ((ctx.takeFirst empty get set).2.state sym) = empty := by
  have hLoop := OrderedMap.visit_until (p := fun _ st => decide (get st ≠ empty))
    (f := fun taken (_ : Symbol) st =>
      if get st ≠ empty then (get st, set taken st, true) else (taken, st, false))
    (fun s k v h => by simp_all) (fun s k v h => by simp_all) ctx.stateMap empty
  rw [takeFirst] at h ⊢
  cases hLoop with
  | inl hNone =>
    obtain ⟨hEmpty, hVisit⟩ := hNone
    rw [hVisit, state]
    cases hFind : ctx.stateMap.find? sym with
    | none => exact hNew
    | some st => simpa using hEmpty sym st hFind
  | inr hSome =>
    obtain ⟨sym', st, _, hNe, hVisit⟩ := hSome
    have hHere : get st ≠ empty := by simpa using hNe
    rw [hVisit, if_pos hHere] at h
    exact absurd h hHere

theorem takeFirst_of_none {α : Type} [DecidableEq α] {empty : α} {get : State → α}
    {set : α → State → State} (h : ∀ sym, get (ctx.state sym) = empty) :
    (ctx.takeFirst empty get set).2 = ctx := by
  have hLoop := OrderedMap.visit_until (p := fun _ st => decide (get st ≠ empty))
    (f := fun taken (_ : Symbol) st =>
      if get st ≠ empty then (get st, set taken st, true) else (taken, st, false))
    (fun s k v h => by simp_all) (fun s k v h => by simp_all) ctx.stateMap empty
  rw [takeFirst]
  cases hLoop with
  | inl hNone => rw [hNone.2]
  | inr hSome =>
    obtain ⟨sym, st, hFind, hNe, _⟩ := hSome
    have hEmpty := h sym
    rw [state, hFind, Option.getD_some] at hEmpty
    simp [hEmpty] at hNe

theorem visitIn_bars_eq_nil {l : List (Symbol × State)} {acc : Taken}
    (h : (OrderedMap.visitIn takeBarsOf acc l).1.bars = []) :
    acc.bars = [] ∧ ∀ e ∈ l, ¬HasBars e.2 := by
  induction l generalizing acc with
  | nil => exact ⟨h, fun _ he => absurd he List.not_mem_nil⟩
  | cons e l ih =>
    rw [OrderedMap.visitIn] at h
    rcases takeBarsOf_eq acc e.1 e.2 with ⟨hEmpty, hEq⟩ | ⟨timeFrame, v, _, hv, hEq⟩
    · rw [hEq] at h
      obtain ⟨hAcc, hRest⟩ := ih h
      exact ⟨hAcc, List.forall_mem_cons.mpr ⟨hEmpty, hRest⟩⟩
    · rw [hEq] at h
      exact absurd (ih h).1 hv

/-- A call of `send_bars` that takes nothing has found nothing. -/
theorem takeBars_eq_nil (h : ctx.takeBars.1.bars = []) (sym : Symbol) (timeFrame : ℕ) :
    ctx.takeBars.2.pendingBars sym timeFrame = [] := by
  have hNone : ∀ sym timeFrame, ctx.pendingBars sym timeFrame = [] := by
    intro sym timeFrame
    by_contra hPending
    obtain ⟨st, hMem, hBars⟩ := pendingBars_ne_nil_iff.mp ⟨timeFrame, hPending⟩
    exact (visitIn_bars_eq_nil h).2 _ hMem hBars
  rw [takeBars_of_none hNone]
  exact hNone sym timeFrame

end Context

end Fxquant.Gui
