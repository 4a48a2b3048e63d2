import Fxquant.Gui.Context

/-!
# Bars under their labels

What one call of `send_bars` takes and writes. The loop over the symbols goes on after the inner
one has found a vector, and swaps what it found into the next symbol's: with pending bars of
one symbol the call takes one vector, with pending bars of more it mixes them up.
-/

namespace Fxquant.Gui

open Feeder

/-- The XML messages to a client. -/
inductive Message where
  | bar (sym : Symbol) (timeFrame : ℕ) (bar : BarData)
  | barArray (sym : Symbol) (timeFrame count : ℕ)
  | tick (sym : Symbol) (tick : TickData)
  | order (info : OrderInfo)
  | info (xml : String)
  | status
  | pong
  deriving DecidableEq

/-- One call of `tcp_socket::write`. -/
inductive Write where
  | message (m : Message)
  | records (bars : List BarData)
  deriving DecidableEq

/-- The chunks of at most 10 records. -/
def chunks : ℕ → List BarData → List (List BarData)
  | 0, _ => []
  | n + 1, bars => if bars = [] then [] else bars.take 10 :: chunks n (bars.drop 10)

def barWrites (taken : Taken) : List Write :=
  match taken.bars with
  | [] => []
  | [bar] => [.message (.bar taken.sym taken.timeFrame bar)]
  | bars => .message (.barArray taken.sym taken.timeFrame bars.length) ::
      (chunks bars.length bars).map .records

/-- The bars a client reads, each with the label it reads it under. -/
def labelled : Option (Symbol × ℕ) → List Write → List (Symbol × ℕ × BarData)
  | _, [] => []
  | _, .message (.bar sym timeFrame bar) :: ws => (sym, timeFrame, bar) :: labelled none ws
  | _, .message (.barArray sym timeFrame _) :: ws => labelled (some (sym, timeFrame)) ws
  | _, .message _ :: ws => labelled none ws
  | none, .records _ :: ws => labelled none ws
  | some (sym, timeFrame), .records bars :: ws =>
    bars.map (fun bar => (sym, timeFrame, bar)) ++ labelled (some (sym, timeFrame)) ws

/-- One pending vector is taken and sent under its label, and the others stay; or there is none. -/
def SendsOne (ctx : Context) : Prop :=
  ((∀ sym timeFrame, ctx.pendingBars sym timeFrame = []) ∧ ctx.takeBars = ({}, ctx)) ∨
    ∃ sym timeFrame, ctx.pendingBars sym timeFrame ≠ [] ∧
      ctx.takeBars.1 = ⟨sym, timeFrame, ctx.pendingBars sym timeFrame⟩ ∧
      labelled none (barWrites ctx.takeBars.1) =
        (ctx.pendingBars sym timeFrame).map (fun bar => (sym, timeFrame, bar)) ∧
      ∀ sym' timeFrame', ctx.takeBars.2.pendingBars sym' timeFrame' =
        if sym' = sym ∧ timeFrame' = timeFrame then [] else ctx.pendingBars sym' timeFrame'

/-! ### Writes -/

theorem flatten_chunks {n : ℕ} {bars : List BarData} (h : bars.length ≤ n) :
    (chunks n bars).flatten = bars := by
  induction n generalizing bars with
  | zero => rw [List.length_eq_zero_iff.mp (Nat.le_zero.mp h)]; rfl
  | succ n ih =>
    rw [chunks]
    split
    · rename_i hNil
      rw [hNil]
      rfl
    · rename_i hSome
      have hLength := List.length_pos_of_ne_nil hSome
      rw [List.flatten_cons, ih (by rw [List.length_drop]; omega), List.take_append_drop]

theorem labelled_records (sym : Symbol) (timeFrame : ℕ) (cs : List (List BarData)) :
    labelled (some (sym, timeFrame)) (cs.map .records) =
      cs.flatten.map fun bar => (sym, timeFrame, bar) := by
  induction cs with
  | nil => rfl
  | cons c cs ih => rw [List.map_cons, labelled, ih, List.flatten_cons, List.map_append]

theorem labelled_barWrites (taken : Taken) : labelled none (barWrites taken) =
    taken.bars.map fun bar => (taken.sym, taken.timeFrame, bar) := by
  obtain ⟨sym, timeFrame, bars⟩ := taken
  match bars with
  | [] => rfl
  | [bar] => rfl
  | bar :: bar' :: rest =>
    rw [barWrites, labelled, labelled_records, flatten_chunks le_rfl]

/-! ### The loops -/

def HasBars (st : State) : Prop := ∃ timeFrame v, st.bars.find? timeFrame = some v ∧ v ≠ []

theorem takeBarsOf_eq (acc : Taken) (sym : Symbol) (st : State) :
    ¬HasBars st ∧ takeBarsOf acc sym st = (acc, st, false) ∨
      ∃ timeFrame v, st.bars.find? timeFrame = some v ∧ v ≠ [] ∧
        takeBarsOf acc sym st =
          (⟨sym, timeFrame, v⟩, { st with bars := st.bars.put timeFrame acc.bars }, false) := by
  have hLoop := OrderedMap.visit_until (p := fun _ v => decide (v ≠ []))
    (f := fun (acc : Taken) timeFrame (v : List BarData) =>
      if v ≠ [] then ((⟨sym, timeFrame, v⟩ : Taken), acc.bars, true) else (acc, v, false))
    (fun s k v h => by simp_all) (fun s k v h => by simp_all) st.bars acc
  rw [takeBarsOf]
  cases hLoop with
  | inl hNone =>
    obtain ⟨hEmpty, hVisit⟩ := hNone
    left
    constructor
    · rintro ⟨timeFrame, v, hFind, hSome⟩
      simpa [hSome] using hEmpty timeFrame v hFind
    · rw [hVisit]
  | inr hSome =>
    obtain ⟨timeFrame, v, hFind, hNe, hVisit⟩ := hSome
    right
    have hv : v ≠ [] := by simpa using hNe
    refine ⟨timeFrame, v, hFind, hv, ?_⟩
    rw [hVisit, if_pos hv]

theorem takeBarsOf_skip {sym : Symbol} {st : State} (h : ¬HasBars st) (acc : Taken) :
    takeBarsOf acc sym st = (acc, st, false) := by
  cases takeBarsOf_eq acc sym st with
  | inl hNone => exact hNone.2
  | inr hSome =>
    obtain ⟨timeFrame, v, hFind, hv, _⟩ := hSome
    exact absurd ⟨timeFrame, v, hFind, hv⟩ h

/-- Once the loop has taken bars, the vector of each further symbol gets the bars of the one before
it, the last one too. -/
theorem visit_rotates {l : List (Symbol × State)} {acc : Taken} (hAcc : acc.bars ≠ [])
    (h : ∃ e ∈ l, HasBars e.2) :
    ∃ st v, ((OrderedMap.visitIn takeBarsOf acc l).1.sym, st) ∈
        (OrderedMap.visitIn takeBarsOf acc l).2 ∧
      st.bars.find? (OrderedMap.visitIn takeBarsOf acc l).1.timeFrame = some v ∧ v ≠ [] := by
  induction l generalizing acc with
  | nil =>
    obtain ⟨e, he, _⟩ := h
    exact absurd he List.not_mem_nil
  | cons e l ih =>
    rw [OrderedMap.visitIn]
    cases takeBarsOf_eq acc e.1 e.2 with
    | inl hNone =>
      obtain ⟨hEmpty, hEq⟩ := hNone
      have hRest : ∃ e ∈ l, HasBars e.2 := by
        obtain ⟨e', he', hBars⟩ := h
        cases List.mem_cons.mp he' with
        | inl hHead => exact absurd (hHead ▸ hBars) hEmpty
        | inr hTail => exact ⟨e', hTail, hBars⟩
      obtain ⟨st, v, hMem, hFind, hv⟩ := ih hAcc hRest
      rw [hEq]
      exact ⟨st, v, List.mem_cons_of_mem _ hMem, hFind, hv⟩
    | inr hSome =>
      obtain ⟨timeFrame, v, hFind, hv, hEq⟩ := hSome
      rw [hEq]
      by_cases hRest : ∃ e ∈ l, HasBars e.2
      · have hNext : (⟨e.1, timeFrame, v⟩ : Taken).bars ≠ [] := hv
        obtain ⟨st, v', hMem, hFind', hv'⟩ := ih hNext hRest
        exact ⟨st, v', List.mem_cons_of_mem _ hMem, hFind', hv'⟩
      · have hSkip := OrderedMap.visitIn_of_skip (f := takeBarsOf) (l := l)
          (fun e he s => takeBarsOf_skip (fun hBars => hRest ⟨e, he, hBars⟩) s)
          ⟨e.1, timeFrame, v⟩
        simp only [Bool.false_eq_true, if_false, hSkip]
        exact ⟨_, acc.bars, List.mem_cons_self, OrderedMap.find?_put_self _ _ _, hAcc⟩

/-! ### One call -/

theorem pendingBars_ne_nil_iff {ctx : Context} {sym : Symbol} :
    (∃ timeFrame, ctx.pendingBars sym timeFrame ≠ []) ↔
      ∃ st, (sym, st) ∈ ctx.stateMap.entries ∧ HasBars st := by
  simp only [← OrderedMap.find?_eq_some_iff, Context.pendingBars, Context.state, HasBars]
  constructor
  · rintro ⟨timeFrame, hPending⟩
    cases hState : ctx.stateMap.find? sym with
    | none => simp [hState] at hPending
    | some st =>
      rw [hState, Option.getD_some] at hPending
      cases hBars : st.bars.find? timeFrame with
      | none => simp [hBars] at hPending
      | some v => exact ⟨st, rfl, timeFrame, v, hBars, by simpa [hBars] using hPending⟩
  · rintro ⟨st, hState, timeFrame, v, hBars, hv⟩
    exact ⟨timeFrame, by simpa [hState, hBars] using hv⟩

theorem takeBars_eq (ctx : Context) : ctx.takeBars =
    ((ctx.stateMap.visit {} takeBarsOf).1, ⟨(ctx.stateMap.visit {} takeBarsOf).2⟩) := rfl

theorem takeBars_of_none {ctx : Context}
    (h : ∀ sym timeFrame, ctx.pendingBars sym timeFrame = []) : ctx.takeBars = ({}, ctx) := by
  have hSkip : ∀ e ∈ ctx.stateMap.entries, ∀ acc, takeBarsOf acc e.1 e.2 = (acc, e.2, false) := by
    intro e he acc
    apply takeBarsOf_skip
    intro hBars
    obtain ⟨timeFrame, hPending⟩ := pendingBars_ne_nil_iff.mpr ⟨e.2, he, hBars⟩
    exact hPending (h e.1 timeFrame)
  rw [takeBars_eq, OrderedMap.visit_eq (OrderedMap.visitIn_of_skip hSkip {})]

/-- With pending bars of one symbol only. -/
theorem takeBars_of_one {ctx : Context} {sym : Symbol}
    (h : ∃ timeFrame, ctx.pendingBars sym timeFrame ≠ [])
    (hOne : ∀ sym' timeFrame, ctx.pendingBars sym' timeFrame ≠ [] → sym' = sym) :
    ∃ timeFrame, ctx.pendingBars sym timeFrame ≠ [] ∧
      ctx.takeBars = (⟨sym, timeFrame, ctx.pendingBars sym timeFrame⟩,
        ctx.setBars sym timeFrame []) := by
  obtain ⟨st, hMem, hBars⟩ := pendingBars_ne_nil_iff.mp h
  obtain ⟨a, b, hSplit⟩ := List.append_of_mem hMem
  have hSorted := ctx.stateMap.sorted
  rw [hSplit] at hSorted
  have hOthers : ∀ e ∈ ctx.stateMap.entries, e.1 ≠ sym → ∀ acc,
      takeBarsOf acc e.1 e.2 = (acc, e.2, false) := by
    intro e he hNe acc
    apply takeBarsOf_skip
    intro hBars
    obtain ⟨timeFrame, hPending⟩ := pendingBars_ne_nil_iff.mpr ⟨e.2, he, hBars⟩
    exact hNe (hOne e.1 timeFrame hPending)
  have hBefore : ∀ e ∈ a, ∀ acc, takeBarsOf acc e.1 e.2 = (acc, e.2, false) := by
    intro e he
    have hLt : e.1 < sym := (List.pairwise_append.mp hSorted).2.2 e he (sym, st) List.mem_cons_self
    exact hOthers e (by simp [hSplit, he]) hLt.ne
  have hAfter : ∀ e ∈ b, ∀ acc, takeBarsOf acc e.1 e.2 = (acc, e.2, false) := by
    intro e he
    have hLt : sym < e.1 := (List.pairwise_cons.mp (List.pairwise_append.mp hSorted).2.1).1 e he
    exact hOthers e (by simp [hSplit, he]) hLt.ne'
  cases takeBarsOf_eq {} sym st with
  | inl hNone => exact absurd hBars hNone.1
  | inr hSome =>
    obtain ⟨timeFrame, v, hFind, hv, hEq⟩ := hSome
    have hState : ctx.state sym = st := by
      rw [Context.state, OrderedMap.find?_eq_some_iff.mpr hMem]
      rfl
    have hPending : ctx.pendingBars sym timeFrame = v := by
      rw [Context.pendingBars, hState, hFind]
      rfl
    refine ⟨timeFrame, hPending ▸ hv, ?_⟩
    have hPut : (ctx.setBars sym timeFrame []).stateMap.entries =
        a ++ (sym, { st with bars := st.bars.put timeFrame [] }) :: b := by
      rw [← OrderedMap.putIn_middle hSorted, ← hSplit, ← hState]
      rfl
    have hVisit : ctx.stateMap.visit {} takeBarsOf =
        (⟨sym, timeFrame, v⟩, (ctx.setBars sym timeFrame []).stateMap) := by
      apply OrderedMap.visit_eq
      rw [hSplit, OrderedMap.visitIn_append_of_skip hBefore, OrderedMap.visitIn, hEq]
      simp only [Bool.false_eq_true, if_false, OrderedMap.visitIn_of_skip hAfter]
      rw [hPut]
    rw [takeBars_eq, hVisit, hPending]

/-- A context that gets the bars of one symbol and time frame only. -/
theorem takeBars_of_only {ctx : Context} {sym : Symbol} {timeFrame : ℕ}
    (h : ∀ sym' timeFrame', ¬(sym' = sym ∧ timeFrame' = timeFrame) →
      ctx.pendingBars sym' timeFrame' = []) :
    ctx.takeBars.1.bars = ctx.pendingBars sym timeFrame ∧
      ∀ sym' timeFrame', ctx.takeBars.2.pendingBars sym' timeFrame' = [] := by
  by_cases hSome : ctx.pendingBars sym timeFrame = []
  · have hNone : ∀ sym' timeFrame', ctx.pendingBars sym' timeFrame' = [] := by
      intro sym' timeFrame'
      by_cases hSame : sym' = sym ∧ timeFrame' = timeFrame
      · rw [hSame.1, hSame.2, hSome]
      · exact h sym' timeFrame' hSame
    rw [takeBars_of_none hNone, hSome]
    exact ⟨rfl, hNone⟩
  · have hOne : ∀ sym' timeFrame', ctx.pendingBars sym' timeFrame' ≠ [] →
        sym' = sym ∧ timeFrame' = timeFrame :=
      fun sym' timeFrame' hPending => by_contra fun hOther => hPending (h sym' timeFrame' hOther)
    obtain ⟨timeFrame', hNe, hTake⟩ := takeBars_of_one ⟨timeFrame, hSome⟩
      fun sym' timeFrame' hPending => (hOne sym' timeFrame' hPending).1
    obtain ⟨_, rfl⟩ := hOne sym timeFrame' hNe
    rw [hTake]
    refine ⟨rfl, ?_⟩
    intro sym' timeFrame''
    by_cases hSame : sym' = sym ∧ timeFrame'' = timeFrame'
    · rw [hSame.1, hSame.2, Context.pendingBars_setBars_self]
    · rw [Context.pendingBars_setBars_of_ne _ _ hSame, h sym' timeFrame'' hSame]

/-- With pending bars of two symbols, the vector under the label is not empty afterwards. -/
theorem takeBars_of_two {ctx : Context} {sym sym' : Symbol} (hLt : sym < sym')
    (h : ∃ timeFrame, ctx.pendingBars sym timeFrame ≠ [])
    (h' : ∃ timeFrame, ctx.pendingBars sym' timeFrame ≠ []) :
    ctx.takeBars.2.pendingBars ctx.takeBars.1.sym ctx.takeBars.1.timeFrame ≠ [] := by
  obtain ⟨st, hMem, hBars⟩ := pendingBars_ne_nil_iff.mp h
  obtain ⟨st', hMem', hBars'⟩ := pendingBars_ne_nil_iff.mp h'
  obtain ⟨a, b, hSplit⟩ := List.append_of_mem hMem
  have hLater : ∃ e ∈ b, HasBars e.2 := by
    have hSorted := ctx.stateMap.sorted
    rw [hSplit] at hSorted hMem'
    cases List.mem_append.mp hMem' with
    | inl hBefore =>
      have hGt : sym' < sym :=
        (List.pairwise_append.mp hSorted).2.2 _ hBefore (sym, st) List.mem_cons_self
      exact absurd hLt (lt_asymm hGt)
    | inr hHere =>
      cases List.mem_cons.mp hHere with
      | inl hEq => exact absurd (congrArg Prod.fst hEq) hLt.ne'
      | inr hAfter => exact ⟨_, hAfter, hBars'⟩
  have hGo : ∀ acc sym st, (takeBarsOf acc sym st).2.2 = false := fun _ _ _ => rfl
  obtain ⟨st, v, hState, hFind, hv⟩ : ∃ st v,
      (ctx.takeBars.1.sym, st) ∈ ctx.takeBars.2.stateMap.entries ∧
        st.bars.find? ctx.takeBars.1.timeFrame = some v ∧ v ≠ [] := by
    have hTaken : ctx.takeBars.1 =
        (OrderedMap.visitIn takeBarsOf {} ctx.stateMap.entries).1 := rfl
    have hEntries : ctx.takeBars.2.stateMap.entries =
        (OrderedMap.visitIn takeBarsOf {} ctx.stateMap.entries).2 := rfl
    rw [hTaken, hEntries, hSplit, OrderedMap.visitIn_append hGo, OrderedMap.visitIn]
    cases takeBarsOf_eq (OrderedMap.visitIn takeBarsOf {} a).1 sym st with
    | inl hNone => exact absurd hBars hNone.1
    | inr hSome =>
      obtain ⟨timeFrame, v, _, hv, hEq⟩ := hSome
      have hAcc : (⟨sym, timeFrame, v⟩ : Taken).bars ≠ [] := hv
      obtain ⟨st, v', hMem, hFind, hv'⟩ := visit_rotates hAcc hLater
      simp only [hEq, Bool.false_eq_true, if_false]
      exact ⟨st, v', List.mem_append_right _ (List.mem_cons_of_mem _ hMem), hFind, hv'⟩
  rw [Context.pendingBars, Context.state, OrderedMap.find?_eq_some_iff.mpr hState,
    Option.getD_some, hFind]
  exact hv

/-- One call takes one vector and sends it under its own label exactly when no two symbols have
bars pending. -/
theorem sendsOne_iff (ctx : Context) : SendsOne ctx ↔
    ∀ sym timeFrame sym' timeFrame', ctx.pendingBars sym timeFrame ≠ [] →
      ctx.pendingBars sym' timeFrame' ≠ [] → sym = sym' := by
  constructor
  · intro hSends
    have hNotLt : ∀ sym sym' timeFrame timeFrame', ctx.pendingBars sym timeFrame ≠ [] →
        ctx.pendingBars sym' timeFrame' ≠ [] → ¬sym < sym' := by
      intro sym sym' timeFrame timeFrame' h h' hLt
      have hLeft := takeBars_of_two hLt ⟨timeFrame, h⟩ ⟨timeFrame', h'⟩
      cases hSends with
      | inl hNone =>
        exact h (hNone.1 sym timeFrame)
      | inr hSome =>
        obtain ⟨sym₀, timeFrame₀, _, hTaken, _, hAfter⟩ := hSome
        rw [hTaken] at hLeft
        apply hLeft
        rw [hAfter, if_pos ⟨rfl, rfl⟩]
    intro sym timeFrame sym' timeFrame' h h'
    exact le_antisymm (not_lt.mp (hNotLt sym' sym timeFrame' timeFrame h' h))
      (not_lt.mp (hNotLt sym sym' timeFrame timeFrame' h h'))
  · intro hOne
    by_cases hSome : ∃ sym timeFrame, ctx.pendingBars sym timeFrame ≠ []
    · obtain ⟨sym, hPending⟩ := hSome
      obtain ⟨timeFrame₀, hPending₀⟩ := hPending
      obtain ⟨timeFrame, hNe, hTake⟩ := takeBars_of_one ⟨timeFrame₀, hPending₀⟩
        fun sym' timeFrame' h => hOne sym' timeFrame' sym timeFrame₀ h hPending₀
      right
      refine ⟨sym, timeFrame, hNe, ?_, ?_, ?_⟩
      · rw [hTake]
      · rw [hTake, labelled_barWrites]
      · intro sym' timeFrame'
        rw [hTake]
        split
        · rename_i hSame
          rw [hSame.1, hSame.2, Context.pendingBars_setBars_self]
        · rename_i hOther
          exact ctx.pendingBars_setBars_of_ne [] hOther
    · left
      have hNone : ∀ sym timeFrame, ctx.pendingBars sym timeFrame = [] := by
        intro sym timeFrame
        by_contra hPending
        exact hSome ⟨sym, timeFrame, hPending⟩
      exact ⟨hNone, takeBars_of_none hNone⟩

/-- Two symbols with one bar each: the bar of the first goes back under the second. -/
def twoSymbols : Context :=
  ((({} : Context).addBar .eurusd 1 ⟨1, 1, 1, 1, 60⟩).1.addBar .gbpusd 1 ⟨2, 2, 2, 2, 60⟩).1

theorem bars_of_two_symbols :
    twoSymbols.pendingBars .eurusd 1 = [⟨1, 1, 1, 1, 60⟩] ∧
      barWrites twoSymbols.takeBars.2.takeBars.1 =
        [.message (.bar .gbpusd 1 ⟨1, 1, 1, 1, 60⟩)] ∧ ¬SendsOne twoSymbols := by
  refine ⟨by decide +kernel, by decide +kernel, ?_⟩
  have hTaken : twoSymbols.takeBars.1 = ⟨.gbpusd, 1, [⟨2, 2, 2, 2, 60⟩]⟩ := by decide +kernel
  have hLeft : twoSymbols.takeBars.2.pendingBars .gbpusd 1 ≠ [] := by decide +kernel
  rintro (⟨_, hNone⟩ | ⟨sym, timeFrame, _, hOne, _, hAfter⟩)
  · rw [hNone] at hTaken
    cases hTaken
  · rw [hTaken] at hOne
    obtain ⟨rfl, rfl, _⟩ := Taken.mk.inj hOne
    exact hLeft ((hAfter _ _).trans (if_pos ⟨rfl, rfl⟩))

end Fxquant.Gui
