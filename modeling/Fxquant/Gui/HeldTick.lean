import Fxquant.Gui.Context
import Fxquant.Library.Grouping
import Fxquant.Library.Runs

/-!
# The price that is held for sending

`add_tick` keeps a new tick only where `ticks_equal` tells it from the held one, and that compares
prices cut off after three decimals. So the held tick is the first of the last ticks with the
same cut-off prices. Where one pip is the fifth decimal, the price can be a hundred pips away from
it; a product of doubles that falls short of a whole thousandth is cut off to the one below.
-/

namespace Fxquant.Gui

open Grouping Runs

/-- The numbers that `ticks_equal` compares. -/
def scaledPrices (tick : TickData) : ℤ × ℤ := (thousandths tick.ask, thousandths tick.bid)

def WithinPip (sym : Symbol) (a b : TickData) : Prop :=
  |a.bid - b.bid| ≤ symbolPip sym ∧ |a.ask - b.ask| ≤ symbolPip sym

instance (sym : Symbol) (a b : TickData) : Decidable (WithinPip sym a b) :=
  inferInstanceAs (Decidable (_ ∧ _))

namespace Context

def tickCall (ctx : Context) (call : Symbol × TickData) : Context := (ctx.addTick call.1 call.2).1

end Context

variable (sym : Symbol)

def ticksOf (calls : List (Symbol × TickData)) : List TickData :=
  (calls.filter fun call => call.1 == sym).map Prod.snd

/-- What `send_ticks` would send for the symbol is the last one of these ticks, to within a pip. -/
def HoldsCurrent (ctx : Context) (ticks : List TickData) : Prop :=
  ∀ last, ticks.getLast? = some last →
    ∃ held, (ctx.state sym).ticks.getLast? = some held ∧ WithinPip sym held last

/-- The ticks since the cut-off prices changed last start within a pip of where they end. -/
def StaysWithinPip (ticks : List TickData) : Prop :=
  ∀ stretch ∈ (groups scaledPrices ticks).getLast?, ∀ first ∈ stretch.head?,
    ∀ last ∈ stretch.getLast?, WithinPip sym first last

instance (ticks : List TickData) : Decidable (StaysWithinPip sym ticks) :=
  inferInstanceAs (Decidable (∀ stretch ∈ _, _))

theorem ticksEqual_iff {a b : TickData} : ticksEqual a b = true ↔ scaledPrices a = scaledPrices b := by
  simp [ticksEqual, scaledPrices]

/-! ### What is held -/

theorem ticks_takeTicks (ctx : Context) : (ctx.takeTicks.2.state sym).ticks = [] := by
  rw [Context.state]
  cases hFind : ctx.takeTicks.2.stateMap.find? sym with
  | none => rfl
  | some st =>
    apply OrderedMap.visit_gives (P := fun st : State => st.ticks = []) _ _ _ sym st hFind
    intro ticks sym st
    cases hLast : st.ticks.getLast? with
    | none => exact ⟨rfl, List.getLast?_eq_none_iff.mp hLast⟩
    | some last => exact ⟨rfl, rfl⟩

theorem ticks_addTick_of_ne {sym sym' : Symbol} (h : sym ≠ sym') (ctx : Context)
    (tick : TickData) : ((ctx.addTick sym' tick).1.state sym).ticks = (ctx.state sym).ticks := by
  rw [Context.addTick]
  split
  · rw [ctx.state_update_of_ne _ h]
  · rfl

theorem ticks_addTick_of_nil {ctx : Context} (h : (ctx.state sym).ticks = []) (tick : TickData) :
    ((ctx.addTick sym tick).1.state sym).ticks = [tick] := by
  rw [Context.addTick, h]
  exact congrArg State.ticks (ctx.state_update_self sym _)

theorem ticks_addTick_of_held {ctx : Context} {held tick : TickData}
    (h : (ctx.state sym).ticks = [held]) (hTime : held.time < tick.time) :
    ((ctx.addTick sym tick).1.state sym).ticks =
      if scaledPrices held = scaledPrices tick then [held] else [tick] := by
  rw [Context.addTick, h]
  by_cases hEqual : scaledPrices held = scaledPrices tick
  · simp [hTime, hEqual, ticksEqual_iff.mpr hEqual, h]
  · have hNot : ticksEqual held tick = false := by
      rw [← Bool.not_eq_true, ticksEqual_iff]
      exact hEqual
    simp [hTime, hEqual, hNot]

theorem ticksOf_concat (calls : List (Symbol × TickData)) (call : Symbol × TickData) :
    ticksOf sym (calls ++ [call]) =
      if call.1 = sym then ticksOf sym calls ++ [call.2] else ticksOf sym calls := by
  rw [ticksOf, List.filter_append, List.map_append, ← ticksOf, List.filter_singleton]
  by_cases hSym : call.1 = sym
  · rw [if_pos hSym, hSym, beq_self_eq_true]
    rfl
  · rw [if_neg hSym, beq_false_of_ne hSym]
    exact List.append_nil _

/-- The held tick is the one that the cut-off prices came with. -/
theorem ticks_eq_stretch (ctx : Context) {calls : List (Symbol × TickData)}
    (h : (ticksOf sym calls).Pairwise fun a b => a.time < b.time) :
    ((run Context.tickCall ctx.takeTicks.2 calls).state sym).ticks =
      ((groups scaledPrices (ticksOf sym calls)).getLast?.bind List.head?).toList := by
  induction calls using List.reverseRecOn with
  | nil => exact ticks_takeTicks sym ctx
  | append_singleton calls call ih =>
    rw [run_concat, Context.tickCall, ticksOf_concat]
    rw [ticksOf_concat] at h
    by_cases hSym : call.1 = sym
    · rw [if_pos hSym] at h ⊢
      rw [hSym]
      obtain ⟨hBefore, _, hLater⟩ := List.pairwise_append.mp h
      have hHeld := ih hBefore
      by_cases hNil : ticksOf sym calls = []
      · rw [hNil] at hHeld ⊢
        exact ticks_addTick_of_nil sym hHeld call.2
      · obtain ⟨init, g, hGroups⟩ := groups_eq_concat scaledPrices hNil
        have hMem : g ∈ groups scaledPrices (ticksOf sym calls) := by simp [hGroups]
        obtain ⟨first, rest, rfl⟩ := List.exists_cons_of_ne_nil (ne_nil_of_mem hMem)
        have hFirst : first ∈ first :: rest := List.mem_cons_self
        have hTime : first.time < call.2.time :=
          hLater first (mem_of_mem hMem hFirst) call.2 List.mem_cons_self
        rw [hGroups] at hHeld
        have hOne : ((run Context.tickCall ctx.takeTicks.2 calls).state sym).ticks = [first] := by
          simpa using hHeld
        rw [ticks_addTick_of_held sym hOne hTime]
        by_cases hEqual : scaledPrices first = scaledPrices call.2
        · rw [if_pos hEqual, groups_concat_of_eq hGroups hFirst hEqual]
          simp
        · rw [if_neg hEqual, groups_concat_of_ne hGroups hFirst hEqual]
          simp
    · rw [if_neg hSym] at h ⊢
      rw [ticks_addTick_of_ne (Ne.symm hSym), ih h]

/-- The held tick has the current price exactly when the price has not gone more than a pip away
from where its first three decimals changed last. -/
theorem holdsCurrent_iff (ctx : Context) {calls : List (Symbol × TickData)}
    (h : (ticksOf sym calls).Pairwise fun a b => a.time < b.time) :
    HoldsCurrent sym (run Context.tickCall ctx.takeTicks.2 calls) (ticksOf sym calls) ↔
      StaysWithinPip sym (ticksOf sym calls) := by
  rw [HoldsCurrent, StaysWithinPip, ticks_eq_stretch sym ctx h]
  by_cases hNil : ticksOf sym calls = []
  · simp [hNil]
  · obtain ⟨init, g, hGroups⟩ := groups_eq_concat scaledPrices hNil
    have hMem : g ∈ groups scaledPrices (ticksOf sym calls) := by simp [hGroups]
    obtain ⟨first, rest, rfl⟩ := List.exists_cons_of_ne_nil (ne_nil_of_mem hMem)
    have hLast : (ticksOf sym calls).getLast? = (first :: rest).getLast? := by
      conv_lhs => rw [(groups_init hGroups).1]
      rw [List.getLast?_append_of_ne_nil _ (List.cons_ne_nil first rest)]
    rw [hLast, hGroups]
    simp

/-- Eighty pips up, and the first price is still held. -/
theorem eighty_pips_missed :
    ¬ HoldsCurrent .eurusd
      (run Context.tickCall ({} : Context).takeTicks.2
        [(.eurusd, quote 1.0001 1.0002 0), (.eurusd, quote 1.0009 1.00095 1000)])
      (ticksOf .eurusd [(.eurusd, quote 1.0001 1.0002 0), (.eurusd, quote 1.0009 1.00095 1000)]) := by
  intro hHolds
  obtain ⟨held, hHeld, hBid, _⟩ := hHolds (quote 1.0009 1.00095 1000) rfl
  have hFirst : held = quote 1.0001 1.0002 0 := by
    refine (Option.some.inj (hHeld.symm.trans ?_))
    decide +kernel
  rw [hFirst] at hBid
  exact absurd hBid (by decide +kernel)

theorem next_thousandth_held :
    HoldsCurrent .eurusd
      (run Context.tickCall ({} : Context).takeTicks.2
        [(.eurusd, quote 1.0001 1.0002 0), (.eurusd, quote 1.0011 1.00115 1000)])
      (ticksOf .eurusd [(.eurusd, quote 1.0001 1.0002 0), (.eurusd, quote 1.0011 1.00115 1000)]) :=
  (holdsCurrent_iff .eurusd {} (by decide +kernel)).mpr (by decide +kernel)

/-- A product that falls short of 1005 thousandths: the tick is held back as equal. -/
example : ticksEqual (quote 1.004 1.0055 0) (quote 1.005 1.0055 1000) = true := by decide +kernel

end Fxquant.Gui
