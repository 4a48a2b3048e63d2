import Fxquant.Gui.Sending
import Mathlib.Data.List.TakeWhile

/-!
# The order of the pending bars

New bars come at the back of a pending vector and old ones in front of it, cut off where its first
bar begins. `send_bars` takes a vector out and may leave another one of the same map in its
place, so the order has to hold of all of them together.
-/

namespace Fxquant.Gui

open Feeder Runs

/-- The functions of a context that change its `state_map_`. -/
inductive Call where
  | add (data : Data)
  | sendBars
  | sendTicks
  | sendOrders
  | sendInfo

def Context.call (ctx : Context) : Call → Context
  | .add data => ctx.add data
  | .sendBars => ctx.takeBars.2
  | .sendTicks => ctx.takeTicks.2
  | .sendOrders => ctx.takeOrders.2
  | .sendInfo => ctx.takeInfo.2

def Increasing (bars : List BarData) : Prop := bars.Pairwise fun a b => a.t < b.t

instance (bars : List BarData) : Decidable (Increasing bars) :=
  inferInstanceAs (Decidable (bars.Pairwise _))

/-- What `add_bars` gets is in order. -/
def Call.Ordered : Call → Prop
  | .add (.addBars _ _ bars) => Increasing bars
  | _ => True

def State.Increasing (st : State) : Prop :=
  ∀ timeFrame v, st.bars.find? timeFrame = some v → Gui.Increasing v

def Context.Increasing (ctx : Context) : Prop :=
  ∀ sym st, ctx.stateMap.find? sym = some st → st.Increasing

/-! ### Vectors -/

theorem increasing_concat {v : List BarData} {bar : BarData} (h : Increasing v)
    (hLast : v.getLast?.all (fun last => decide (last.t < bar.t)) = true) :
    Increasing (v ++ [bar]) := by
  refine List.pairwise_append.mpr ⟨h, List.pairwise_singleton _ _, ?_⟩
  intro b hb b' hb'
  rw [List.mem_singleton.mp hb']
  obtain ⟨init, last, rfl⟩ := List.eq_nil_or_concat v |>.resolve_left (List.ne_nil_of_mem hb)
  have hLt : last.t < bar.t := by simpa using hLast
  obtain hInit | hEnd := List.mem_append.mp (List.concat_eq_append ▸ hb)
  · have hBefore : b.t < last.t := by
      have hPairs := List.pairwise_append.mp (List.concat_eq_append ▸ h)
      exact hPairs.2.2 b hInit last List.mem_cons_self
    exact hBefore.trans hLt
  · rw [List.mem_singleton.mp hEnd]
    exact hLt

theorem increasing_insertBars {v bars v' : List BarData} (h : Increasing v)
    (hBars : Increasing bars) (hInsert : Context.insertBars v bars = some v') : Increasing v' := by
  cases v with
  | nil => exact Option.some.inj hInsert ▸ hBars
  | cons first rest =>
    rw [Context.insertBars] at hInsert
    split at hInsert
    · obtain rfl := Option.some.inj hInsert
      refine List.pairwise_append.mpr ⟨hBars.sublist (List.takeWhile_sublist _), h, ?_⟩
      intro b hb b' hb'
      have hBefore : b.t < first.t := by simpa using List.mem_takeWhile_imp hb
      cases List.mem_cons.mp hb' with
      | inl hFirst => exact hFirst ▸ hBefore
      | inr hRest => exact hBefore.trans (List.rel_of_pairwise_cons h hRest)
    · cases hInsert

/-! ### The map -/

theorem State.increasing_put {st : State} (h : st.Increasing) {timeFrame : ℕ} {v : List BarData}
    (hv : Gui.Increasing v) : State.Increasing { st with bars := st.bars.put timeFrame v } := by
  intro timeFrame' v' hFind
  obtain ⟨_, rfl⟩ | hOld := OrderedMap.find?_put_cases hFind
  · exact hv
  · exact h timeFrame' v' hOld

namespace Context

variable {ctx : Context}

theorem Increasing.state (h : ctx.Increasing) (sym : Symbol) : (ctx.state sym).Increasing := by
  rw [Context.state]
  cases hFind : ctx.stateMap.find? sym with
  | none =>
    intro timeFrame v hNone
    cases hNone
  | some st => exact h sym st hFind

theorem Increasing.pendingBars (h : ctx.Increasing) (sym : Symbol) (timeFrame : ℕ) :
    Gui.Increasing (ctx.pendingBars sym timeFrame) := by
  rw [Context.pendingBars]
  cases hFind : (ctx.state sym).bars.find? timeFrame with
  | none => exact List.Pairwise.nil
  | some v => exact h.state sym timeFrame v hFind

theorem Increasing.update (h : ctx.Increasing) {sym : Symbol} {f : State → State}
    (hf : (ctx.state sym).Increasing → (f (ctx.state sym)).Increasing) :
    (ctx.update sym f).Increasing := by
  intro sym' st hFind
  obtain ⟨_, rfl⟩ | hOld := OrderedMap.find?_put_cases hFind
  · exact hf (h.state sym)
  · exact h sym' st hOld

theorem Increasing.setBars (h : ctx.Increasing) {sym : Symbol} {timeFrame : ℕ}
    {v : List BarData} (hv : Gui.Increasing v) : (ctx.setBars sym timeFrame v).Increasing :=
  h.update fun hState => State.increasing_put hState hv

theorem Increasing.addBar (h : ctx.Increasing) (sym : Symbol) (timeFrame : ℕ) (bar : BarData) :
    (ctx.addBar sym timeFrame bar).1.Increasing := by
  rw [Context.addBar]
  split
  · rename_i hLast
    exact h.setBars (increasing_concat (h.pendingBars sym timeFrame) hLast)
  · exact h

theorem Increasing.addBars (h : ctx.Increasing) (sym : Symbol) (timeFrame : ℕ)
    {bars : List BarData} (hBars : Gui.Increasing bars) :
    (ctx.addBars sym timeFrame bars).1.Increasing := by
  rw [Context.addBars]
  split
  · exact h
  · cases hInsert : insertBars (ctx.pendingBars sym timeFrame) bars with
    | none => exact h
    | some v =>
      exact h.setBars (increasing_insertBars (h.pendingBars sym timeFrame) hBars hInsert)

theorem Increasing.addTick (h : ctx.Increasing) (sym : Symbol) (tick : TickData) :
    (ctx.addTick sym tick).1.Increasing := by
  rw [Context.addTick]
  split
  · exact h.update id
  · exact h

/-- A vector that is swapped into another entry comes from the same map, or is the empty one that
the call starts with. -/
theorem takeBarsOf_increasing {acc : Taken} {sym : Symbol} {st : State}
    (hAcc : Gui.Increasing acc.bars) (h : st.Increasing) :
    Gui.Increasing (takeBarsOf acc sym st).1.bars ∧ (takeBarsOf acc sym st).2.1.Increasing := by
  refine OrderedMap.visit_keeps (I := fun acc : Taken => Gui.Increasing acc.bars)
    (P := fun _ v => Gui.Increasing v) ?_ hAcc h
  intro acc timeFrame v hTaken hv
  split
  · exact ⟨hv, hTaken⟩
  · exact ⟨hTaken, hv⟩

theorem Increasing.takeBars (h : ctx.Increasing) : ctx.takeBars.2.Increasing := by
  have hLoop := OrderedMap.visit_keeps (f := takeBarsOf) (s := {}) (m := ctx.stateMap)
    (I := fun acc => Gui.Increasing acc.bars) (P := fun _ (st : State) => st.Increasing)
    (fun _ _ _ hAcc hState => takeBarsOf_increasing hAcc hState) List.Pairwise.nil h
  exact hLoop.2

theorem Increasing.takeTicks (h : ctx.Increasing) : ctx.takeTicks.2.Increasing := by
  refine (OrderedMap.visit_keeps (I := fun _ => True) (P := fun _ (st : State) => st.Increasing)
    ?_ trivial h).2
  intro ticks sym st _ hState
  split
  · exact ⟨trivial, hState⟩
  · exact ⟨trivial, hState⟩

theorem Increasing.takeFirst {α : Type} [DecidableEq α] (h : ctx.Increasing) (empty : α)
    {get : State → α} {set : α → State → State} (hSet : ∀ a st, (set a st).bars = st.bars) :
    (ctx.takeFirst empty get set).2.Increasing := by
  refine (OrderedMap.visit_keeps (I := fun _ => True) (P := fun _ (st : State) => st.Increasing)
    ?_ trivial h).2
  intro taken sym st _ hState
  split
  · refine ⟨trivial, ?_⟩
    rw [State.Increasing, hSet]
    exact hState
  · exact ⟨trivial, hState⟩

theorem Increasing.call (h : ctx.Increasing) {c : Call} (hCall : c.Ordered) :
    (ctx.call c).Increasing := by
  cases c with
  | add data =>
    cases data with
    | addBar sym timeFrame bar => exact h.addBar sym timeFrame bar
    | addBars sym timeFrame bars => exact h.addBars sym timeFrame hCall
    | addTick sym tick => exact h.addTick sym tick
    | addOrder info => exact h.update id
    | addOrders sym saved => exact h.update id
    | addInfo sym xml => exact h.update id
  | sendBars => exact h.takeBars
  | sendTicks => exact h.takeTicks
  | sendOrders => exact h.takeFirst [] fun _ _ => rfl
  | sendInfo => exact h.takeFirst "" fun _ _ => rfl

/-- The pending bars are in order after any calls, of whatever symbols and time frames. -/
theorem pending_bars_increasing {calls : List Call} (h : ∀ c ∈ calls, c.Ordered) :
    (run Context.call {} calls).Increasing := by
  apply run_invariant_of_mem
  · intro sym st hNone
    cases hNone
  · intro ctx hBefore c hMem
    exact hBefore.call (h c hMem)

theorem history_before_pending :
    (run Context.call {} [.add (.addBar .eurusd 1 ⟨1, 2, 1, 2, 180⟩),
      .add (.addBars .eurusd 1 [⟨1, 1, 1, 1, 60⟩, ⟨1, 2, 1, 2, 120⟩, ⟨1, 2, 1, 2, 180⟩]),
      .add (.addBar .usdjpy 1 ⟨110, 111, 109, 110, 180⟩), .sendBars]).Increasing :=
  pending_bars_increasing (by simp [Call.Ordered, Gui.Increasing])

end Context

end Fxquant.Gui
