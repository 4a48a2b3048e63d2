import Fxquant.Engine.BarCollector
import Fxquant.Gui.SendBars
import Fxquant.Library.Runs

/-!
# The bars of a client that connects

The engine puts a bar into its collector and then passes it to the listed contexts; a context
is listed, copies the collector, adds the copy to what is pending and then sends. The steps of
the two interleave freely. `add_bars` places the copy by the time of the first pending bar, and
`add_bar` tells a known bar by the last pending one, so both go wrong where there is no such bar
to go by.
-/

namespace Fxquant.Gui.BarHistory

open Feeder Runs

/-- Where `initialize` is for the time frame. -/
inductive Phase where
  | connecting
  | checked
  | snapshot (bars : List BarData)
  | initialized
  deriving DecidableEq

/-- `inFlight` is a bar between `put_bar` and `gui_server::on_bar`; `taken` is what the calls of
`send_bars` have taken. -/
structure System where
  collector : BarCollector := {}
  inFlight : Option BarData := none
  listed : Bool := false
  phase : Phase := .connecting
  ctx : Context := {}
  taken : List BarData := []

inductive Step where
  | putBar (bar : BarData)
  | onBar
  | list
  | checkEmpty
  | getBars
  | addBars
  | sendBars
  deriving DecidableEq

variable (sym : Symbol) (timeFrame : ℕ)

namespace System

def collected (s : System) : List BarData := s.collector.getBars timeFrame

def pending (s : System) : List BarData := s.ctx.pendingBars sym timeFrame

/-- `gui_server::on_bar`. -/
def passOn (s : System) (bar : BarData) : System :=
  { s with
    inFlight := none
    ctx := if s.listed then (s.ctx.addBar sym timeFrame bar).1 else s.ctx }

end System

/-- The feeder passes bars on in the order of their times; the thread of a context starts when the
context is in the list. -/
def step (s : System) : Step → System
  | .putBar bar =>
    if s.inFlight = none ∧ ∀ last ∈ s.collected timeFrame, last.t < bar.t then
      { s with collector := s.collector.putBar timeFrame bar, inFlight := some bar }
    else s
  | .onBar =>
    match s.inFlight with
    | some bar => s.passOn sym timeFrame bar
    | none => s
  | .list => { s with listed := true }
  | .checkEmpty =>
    if s.listed ∧ s.phase = .connecting then
      { s with phase := if s.collector.empty timeFrame then .initialized else .checked }
    else s
  | .getBars =>
    if s.phase = .checked then { s with phase := .snapshot (s.collector.getBars timeFrame) } else s
  | .addBars =>
    match s.phase with
    | .snapshot bars =>
      { s with ctx := (s.ctx.addBars sym timeFrame bars).1, phase := .initialized }
    | _ => s
  | .sendBars =>
    if s.phase = .initialized then
      { s with ctx := s.ctx.takeBars.2, taken := s.taken ++ s.ctx.takeBars.1.bars }
    else s

/-- Neither side is in the middle of anything. -/
def System.Finished (s : System) : Prop := s.inFlight = none ∧ s.phase = .initialized

def System.Complete (s : System) : Prop :=
  s.taken ++ s.pending sym timeFrame = s.collected timeFrame

instance (s : System) : Decidable s.Finished := inferInstanceAs (Decidable (_ ∧ _))

instance (s : System) : Decidable (s.Complete sym timeFrame) :=
  inferInstanceAs (Decidable (_ = _))

/-- The copy that `add_bars` gets reaches the first pending bar, and a bar that comes when nothing
is pending has not been sent yet. -/
def StepOk (s : System) : Step → Prop
  | .addBars => ∀ bars, s.phase = .snapshot bars →
      ∀ first ∈ (s.pending sym timeFrame).head?, ∃ bar ∈ bars, first.t ≤ bar.t
  | .onBar => ∀ bar, s.inFlight = some bar → s.phase = .initialized →
      s.pending sym timeFrame = [] → bar ∉ s.taken
  | _ => True

/-! ### What always holds -/

/-- Before the copy is added, `early` are the bars that were passed on before the context was in
the list. -/
structure Inv (s : System) : Prop where
  only : ∀ sym' timeFrame', ¬(sym' = sym ∧ timeFrame' = timeFrame) →
    s.ctx.pendingBars sym' timeFrame' = []
  sorted : (s.collected timeFrame).Pairwise fun a b => a.t < b.t
  flight : ∀ bar, s.inFlight = some bar → ∃ before, s.collected timeFrame = before ++ [bar]
  known : ∀ bar ∈ s.taken ++ s.pending sym timeFrame, bar ∈ s.collected timeFrame
  listed : s.phase ≠ .connecting → s.listed = true
  connecting : s.phase ≠ .initialized → s.taken = [] ∧ ∃ early,
    s.collected timeFrame = early ++ s.pending sym timeFrame ++ s.inFlight.toList ∧
      (s.listed = false → s.pending sym timeFrame = []) ∧
      ∀ bars, s.phase = .snapshot bars →
        bars ≠ [] ∧ early <+: bars ∧ bars <+: s.collected timeFrame
  checked : s.phase = .checked → s.collected timeFrame ≠ []

/-- After the copy is added, all is there but a bar in flight. -/
def Good (s : System) : Prop :=
  s.phase = .initialized → s.Complete sym timeFrame ∨
    ∃ bar, s.inFlight = some bar ∧
      s.taken ++ s.pending sym timeFrame ++ [bar] = s.collected timeFrame

variable {sym timeFrame}

theorem last_lt {v : List BarData} {bar : BarData} (h : ∀ last ∈ v, last.t < bar.t) :
    (v.getLast?.all fun last => decide (last.t < bar.t)) = true := by
  cases hLast : v.getLast? with
  | none => rfl
  | some last => simpa using h last (List.mem_of_getLast? hLast)

theorem Inv.init : Inv sym timeFrame {} where
  only _ _ _ := rfl
  sorted := List.Pairwise.nil
  flight _ h := nomatch h
  known _ h := nomatch h
  listed h := absurd rfl h
  connecting _ := ⟨rfl, [], rfl, fun _ => rfl, fun _ h => nomatch h⟩
  checked h := nomatch h

theorem Inv.putBar {s : System} (h : Inv sym timeFrame s) {bar : BarData}
    (hFlight : s.inFlight = none) (hLast : ∀ last ∈ s.collected timeFrame, last.t < bar.t) :
    Inv sym timeFrame
      { s with collector := s.collector.putBar timeFrame bar, inFlight := some bar } := by
  have hCollected : (s.collector.putBar timeFrame bar).getBars timeFrame =
      s.collected timeFrame ++ [bar] := s.collector.getBars_putBar timeFrame bar
  constructor
  · exact h.only
  · rw [System.collected, hCollected]
    refine List.pairwise_append.mpr ⟨h.sorted, List.pairwise_singleton _ _, ?_⟩
    intro last hMem b hb
    rw [List.mem_singleton.mp hb]
    exact hLast last hMem
  · rintro b ⟨⟩
    exact ⟨_, hCollected⟩
  · intro b hb
    rw [System.collected, hCollected]
    exact List.mem_append_left _ (h.known b hb)
  · exact h.listed
  · intro hPhase
    obtain ⟨hTaken, early, hEarly, hListed, hSnapshot⟩ := h.connecting hPhase
    refine ⟨hTaken, early, ?_, hListed, ?_⟩
    · rw [System.collected, hCollected, hEarly, hFlight, Option.toList_none, List.append_nil]
      rfl
    · intro bars hBars
      obtain ⟨hNe, hPrefix, hCopy⟩ := hSnapshot bars hBars
      refine ⟨hNe, hPrefix, ?_⟩
      rw [System.collected, hCollected]
      exact hCopy.trans (List.prefix_append _ _)
  · intro _
    rw [System.collected, hCollected]
    simp

theorem pending_passOn (s : System) (bar : BarData) :
    (s.passOn sym timeFrame bar).pending sym timeFrame =
      if s.listed ∧ (s.pending sym timeFrame).getLast?.all (fun last => decide (last.t < bar.t)) then
        s.pending sym timeFrame ++ [bar]
      else s.pending sym timeFrame := by
  cases hListed : s.listed with
  | true =>
    simp only [System.passOn, System.pending, hListed, if_true, true_and]
    exact s.ctx.pendingBars_addBar_self sym timeFrame bar
  | false => simp [System.passOn, System.pending, hListed]

/-- Before the copy is added, a bar that is passed on joins the pending ones or those that went
by. -/
theorem Inv.connecting_passOn {s : System} (h : Inv sym timeFrame s) {bar : BarData}
    (hFlight : s.inFlight = some bar) (hPhase : s.phase ≠ .initialized) :
    ∃ early,
      s.collected timeFrame = early ++ (s.passOn sym timeFrame bar).pending sym timeFrame ∧
        (s.listed = false → (s.passOn sym timeFrame bar).pending sym timeFrame = []) ∧
        ∀ bars, s.phase = .snapshot bars →
          bars ≠ [] ∧ early <+: bars ∧ bars <+: s.collected timeFrame := by
  obtain ⟨_, early, hEarly, hListed, hSnapshot⟩ := h.connecting hPhase
  rw [hFlight, Option.toList_some] at hEarly
  rw [pending_passOn]
  cases hList : s.listed with
  | true =>
    have hSorted := h.sorted
    rw [hEarly, List.append_assoc] at hSorted
    have hNew := (List.pairwise_append.mp (List.pairwise_append.mp hSorted).2.1).2.2
    rw [if_pos ⟨rfl, last_lt fun last hLast => hNew last hLast bar List.mem_cons_self⟩]
    refine ⟨early, ?_, fun hNot => absurd hNot (by decide), hSnapshot⟩
    rw [hEarly, List.append_assoc]
  | false =>
    have hPending := hListed hList
    have hConnecting : s.phase = .connecting := by
      by_contra hNot
      exact absurd (hList.symm.trans (h.listed hNot)) (by decide)
    rw [if_neg (by simp)]
    rw [hPending, List.append_nil] at hEarly
    refine ⟨early ++ [bar], ?_, fun _ => hPending, fun bars hBars => ?_⟩
    · rw [hPending, hEarly, List.append_nil]
    · exact absurd (hConnecting.symm.trans hBars) (by simp)

theorem Inv.passOn {s : System} (h : Inv sym timeFrame s) {bar : BarData}
    (hFlight : s.inFlight = some bar) : Inv sym timeFrame (s.passOn sym timeFrame bar) := by
  obtain ⟨before, hBefore⟩ := h.flight bar hFlight
  constructor
  · intro sym' timeFrame' hOther
    rw [System.passOn]
    dsimp only
    split
    · rw [Context.pendingBars_addBar_of_ne _ _ hOther]
      exact h.only sym' timeFrame' hOther
    · exact h.only sym' timeFrame' hOther
  · exact h.sorted
  · rintro b ⟨⟩
  · intro b hb
    have hKnown : b ∈ s.taken ++ s.pending sym timeFrame ∨ b = bar := by
      rw [pending_passOn] at hb
      split at hb
      · rw [← List.append_assoc] at hb
        exact (List.mem_append.mp hb).imp_right List.mem_singleton.mp
      · exact .inl hb
    cases hKnown with
    | inl hOld => exact h.known b hOld
    | inr hNew =>
      have hMem : bar ∈ s.collected timeFrame :=
        hBefore ▸ List.mem_append_right before List.mem_cons_self
      exact hNew ▸ hMem
  · exact h.listed
  · intro hPhase
    obtain ⟨early, hEarly, hListed, hSnapshot⟩ := h.connecting_passOn hFlight hPhase
    have hNone : (s.passOn sym timeFrame bar).inFlight.toList = [] := rfl
    refine ⟨(h.connecting hPhase).1, early, ?_, hListed, hSnapshot⟩
    rw [hNone, List.append_nil]
    exact hEarly
  · exact h.checked

theorem Inv.addBars {s : System} (h : Inv sym timeFrame s) {bars : List BarData}
    (hPhase : s.phase = .snapshot bars) :
    Inv sym timeFrame
      { s with ctx := (s.ctx.addBars sym timeFrame bars).1, phase := .initialized } := by
  obtain ⟨hTaken, early, hEarly, _, hSnapshot⟩ := h.connecting (by rw [hPhase]; simp)
  obtain ⟨hNe, _, hCopy⟩ := hSnapshot bars hPhase
  constructor
  · intro sym' timeFrame' hOther
    rw [Context.pendingBars_addBars_of_ne _ _ hOther]
    exact h.only sym' timeFrame' hOther
  · exact h.sorted
  · exact h.flight
  · intro b hb
    rw [System.pending, Context.pendingBars_addBars_self _ _ _ hNe] at hb
    cases List.mem_append.mp hb with
    | inl hOld =>
      exact h.known b (List.mem_append_left _ hOld)
    | inr hPending =>
      cases Context.mem_of_mem_insertBars hPending with
      | inl hOld => exact h.known b (List.mem_append_right _ hOld)
      | inr hNew => exact hCopy.subset hNew
  · intro _
    exact h.listed (by rw [hPhase]; simp)
  · intro hNot
    exact absurd rfl hNot
  · rintro ⟨⟩

theorem taken_sendBars {s : System} (h : Inv sym timeFrame s) :
    s.ctx.takeBars.1.bars = s.pending sym timeFrame ∧
      ∀ sym' timeFrame', s.ctx.takeBars.2.pendingBars sym' timeFrame' = [] :=
  takeBars_of_only h.only

theorem Inv.sendBars {s : System} (h : Inv sym timeFrame s) (hPhase : s.phase = .initialized) :
    Inv sym timeFrame
      { s with ctx := s.ctx.takeBars.2, taken := s.taken ++ s.ctx.takeBars.1.bars } := by
  obtain ⟨hTaken, hNone⟩ := taken_sendBars h
  constructor
  · intro sym' timeFrame' _
    exact hNone sym' timeFrame'
  · exact h.sorted
  · exact h.flight
  · intro b hb
    rw [System.pending, hNone, hTaken, List.append_nil] at hb
    exact h.known b hb
  · exact h.listed
  · intro hNot
    exact absurd hPhase hNot
  · exact h.checked

theorem Inv.list {s : System} (h : Inv sym timeFrame s) :
    Inv sym timeFrame { s with listed := true } := by
  refine ⟨h.only, h.sorted, h.flight, h.known, fun _ => rfl, fun hPhase => ?_, h.checked⟩
  obtain ⟨hTaken, early, hEarly, _, hSnapshot⟩ := h.connecting hPhase
  exact ⟨hTaken, early, hEarly, fun hNot => absurd hNot (by simp), hSnapshot⟩

theorem Inv.checkEmpty {s : System} (h : Inv sym timeFrame s) (hListed : s.listed = true)
    (hConnecting : s.phase = .connecting) :
    Inv sym timeFrame
      { s with phase := if s.collector.empty timeFrame then .initialized else .checked } := by
  obtain ⟨hTaken, early, hEarly, hNot, _⟩ := h.connecting (by rw [hConnecting]; simp)
  cases hEmpty : s.collector.empty timeFrame with
  | true =>
    exact ⟨h.only, h.sorted, h.flight, h.known, fun _ => hListed, fun hNot => absurd rfl hNot,
      fun hPhase => absurd hPhase (by simp)⟩
  | false =>
    refine ⟨h.only, h.sorted, h.flight, h.known, fun _ => hListed,
      fun _ => ⟨hTaken, early, hEarly, hNot, fun bars hBars => absurd hBars (by simp)⟩,
      fun _ hNil => ?_⟩
    have hTrue := (s.collector.empty_iff timeFrame).mpr hNil
    exact absurd (hEmpty.symm.trans hTrue) (by decide)

theorem Inv.getBars {s : System} (h : Inv sym timeFrame s) (hChecked : s.phase = .checked) :
    Inv sym timeFrame { s with phase := .snapshot (s.collector.getBars timeFrame) } := by
  obtain ⟨hTaken, early, hEarly, hNot, _⟩ := h.connecting (by rw [hChecked]; simp)
  refine ⟨h.only, h.sorted, h.flight, h.known, fun _ => h.listed (by rw [hChecked]; simp),
    fun _ => ⟨hTaken, early, hEarly, hNot, fun bars hBars => ?_⟩,
    fun hPhase => absurd hPhase (by simp)⟩
  cases hBars
  refine ⟨h.checked hChecked, ?_, List.prefix_refl _⟩
  have hPrefix : early <+: s.collected timeFrame := by
    rw [hEarly, List.append_assoc]
    exact List.prefix_append early _
  exact hPrefix

theorem Inv.step {s : System} (h : Inv sym timeFrame s) (i : Step) :
    Inv sym timeFrame (step sym timeFrame s i) := by
  cases i with
  | putBar bar =>
    rw [BarHistory.step]
    split
    · rename_i hNext
      exact h.putBar hNext.1 hNext.2
    · exact h
  | onBar =>
    rw [BarHistory.step]
    cases hFlight : s.inFlight with
    | none => exact h
    | some bar => exact h.passOn hFlight
  | list =>
    exact h.list
  | checkEmpty =>
    rw [BarHistory.step]
    split
    · rename_i hNext
      exact h.checkEmpty hNext.1 hNext.2
    · exact h
  | getBars =>
    rw [BarHistory.step]
    split
    · rename_i hChecked
      exact h.getBars hChecked
    · exact h
  | addBars =>
    rw [BarHistory.step]
    split
    · rename_i bars hPhase
      exact h.addBars hPhase
    · exact h
  | sendBars =>
    rw [BarHistory.step]
    split
    · rename_i hPhase
      exact h.sendBars hPhase
    · exact h

/-! ### What a step does to the bars -/

theorem good_of_idle {s : System} (hPhase : s.phase = .initialized) (hFlight : s.inFlight = none) :
    Good sym timeFrame s ↔ s.Complete sym timeFrame := by
  constructor
  · intro hGood
    cases hGood hPhase with
    | inl hComplete => exact hComplete
    | inr hAlmost =>
      obtain ⟨bar, hBar, _⟩ := hAlmost
      rw [hFlight] at hBar
      cases hBar
  · intro hComplete _
    exact .inl hComplete

theorem good_of_flight {s : System} (hPhase : s.phase = .initialized) {bar : BarData}
    (hFlight : s.inFlight = some bar) {before : List BarData}
    (hBefore : s.collected timeFrame = before ++ [bar]) :
    Good sym timeFrame s ↔
      s.taken ++ s.pending sym timeFrame = before ++ [bar] ∨
        s.taken ++ s.pending sym timeFrame = before := by
  rw [Good, System.Complete, hFlight, hBefore]
  constructor
  · intro hGood
    cases hGood hPhase with
    | inl hComplete => exact .inl hComplete
    | inr hAlmost =>
      obtain ⟨b, hb, hEq⟩ := hAlmost
      cases hb
      exact .inr (List.append_cancel_right hEq)
  · rintro (hComplete | hAlmost) _
    · exact .inl hComplete
    · exact .inr ⟨bar, rfl, by rw [hAlmost]⟩

theorem good_putBar {s : System} (h : Inv sym timeFrame s) {bar : BarData}
    (hFlight : s.inFlight = none) (hLast : ∀ last ∈ s.collected timeFrame, last.t < bar.t) :
    Good sym timeFrame
        { s with collector := s.collector.putBar timeFrame bar, inFlight := some bar } ↔
      Good sym timeFrame s := by
  have hCollected : (s.collector.putBar timeFrame bar).getBars timeFrame =
      s.collected timeFrame ++ [bar] := s.collector.getBars_putBar timeFrame bar
  have hNew : bar ∉ s.taken ++ s.pending sym timeFrame :=
    fun hMem => lt_irrefl _ (hLast bar (h.known bar hMem))
  constructor
  · intro hGood hPhase
    left
    cases hGood hPhase with
    | inl hComplete =>
      rw [System.Complete, System.collected, hCollected] at hComplete
      exact absurd (hComplete ▸ List.mem_append_right _ List.mem_cons_self) hNew
    | inr hAlmost =>
      obtain ⟨b, hb, hEq⟩ := hAlmost
      cases hb
      rw [System.collected, hCollected] at hEq
      exact List.append_cancel_right hEq
  · intro hGood hPhase
    right
    cases hGood hPhase with
    | inl hComplete =>
      refine ⟨bar, rfl, ?_⟩
      rw [System.collected, hCollected]
      exact congrArg (· ++ [bar]) hComplete
    | inr hAlmost =>
      obtain ⟨b, hb, _⟩ := hAlmost
      rw [hFlight] at hb
      cases hb

/-- With nothing pending a bar is added, whether or not it was sent before. -/
theorem concat_eq_iff {taken before : List BarData} {bar : BarData} (hNew : bar ∉ before) :
    taken ++ [bar] = before ++ [bar] ↔
      (taken = before ++ [bar] ∨ taken = before) ∧ bar ∉ taken := by
  constructor
  · intro hEq
    have hTaken := List.append_cancel_right hEq
    exact ⟨.inr hTaken, hTaken ▸ hNew⟩
  · rintro ⟨hAll | hEarlier, hFresh⟩
    · exact absurd (hAll ▸ List.mem_append_right _ List.mem_cons_self) hFresh
    · rw [hEarlier]

/-- With a bar pending, a bar is added exactly when it is not there yet. -/
theorem append_addBar_iff {taken rest before : List BarData} {last bar : BarData}
    (hOlder : ∀ b ∈ before, b.t < bar.t) :
    taken ++ (if last.t < bar.t then rest ++ [last] ++ [bar] else rest ++ [last]) =
        before ++ [bar] ↔
      taken ++ (rest ++ [last]) = before ++ [bar] ∨ taken ++ (rest ++ [last]) = before := by
  split
  · rename_i hLt
    rw [← List.append_assoc, List.append_left_inj]
    constructor
    · exact .inr
    · rintro (hAll | hEarlier)
      · rw [← List.append_assoc] at hAll
        obtain ⟨_, hLast⟩ := List.append_inj' hAll rfl
        exact absurd hLt (by rw [(List.cons.inj hLast).1]; exact lt_irrefl _)
      · exact hEarlier
  · rename_i hNotLt
    constructor
    · exact .inl
    · rintro (hAll | hEarlier)
      · exact hAll
      · exact absurd (hOlder last (hEarlier ▸ by simp)) hNotLt

theorem good_passOn {s : System} (h : Inv sym timeFrame s) {bar : BarData}
    (hFlight : s.inFlight = some bar) :
    Good sym timeFrame (s.passOn sym timeFrame bar) ↔
      Good sym timeFrame s ∧ (s.phase = .initialized → s.pending sym timeFrame = [] →
        bar ∉ s.taken) := by
  obtain ⟨before, hBefore⟩ := h.flight bar hFlight
  have hSorted := h.sorted
  rw [hBefore] at hSorted
  have hOlder : ∀ b ∈ before, b.t < bar.t :=
    fun b hb => (List.pairwise_append.mp hSorted).2.2 b hb bar List.mem_cons_self
  by_cases hPhase : s.phase = .initialized
  · have hListed : s.listed = true := h.listed (by rw [hPhase]; simp)
    have hAfter : Good sym timeFrame (s.passOn sym timeFrame bar) ↔
        s.taken ++ (s.passOn sym timeFrame bar).pending sym timeFrame = before ++ [bar] := by
      rw [← hBefore]
      exact good_of_idle hPhase rfl
    rw [hAfter, good_of_flight hPhase hFlight hBefore, pending_passOn, hListed]
    simp only [true_and, hPhase, forall_const]
    cases List.eq_nil_or_concat' (s.pending sym timeFrame) with
    | inl hNil =>
      have hNew : bar ∉ before := fun hMem => lt_irrefl _ (hOlder bar hMem)
      simp only [hNil, List.getLast?_nil, Option.all_none, if_true, List.nil_append,
        List.append_nil, forall_const]
      exact concat_eq_iff hNew
    | inr hSome =>
      obtain ⟨rest, last, hPending⟩ := hSome
      have hNe : rest ++ [last] ≠ [] := by simp
      simp only [hPending, List.getLast?_concat, Option.all_some, decide_eq_true_eq, hNe,
        false_implies, and_true]
      exact append_addBar_iff hOlder
  · have hBoth : ∀ P : Prop, (s.phase = .initialized → P) :=
      fun _ hNot => absurd hNot hPhase
    exact ⟨fun _ => ⟨hBoth _, hBoth _⟩, fun _ => hBoth _⟩

/-- The copy starts with the bars that went by before the context was in the list, and goes on into
those that are pending, if it reaches them. -/
theorem insertBars_early {early v bars rest : List BarData}
    (hSorted : (early ++ v ++ rest).Pairwise fun a b => a.t < b.t) (hEarly : early <+: bars)
    (hBars : bars <+: early ++ v ++ rest) {first : BarData} (hFirst : first ∈ v.head?) :
    (Context.insertBars v bars).getD v =
      if ∃ bar ∈ bars, first.t ≤ bar.t then early ++ v else v := by
  cases v with
  | nil => cases hFirst
  | cons first' v =>
    cases hFirst
    obtain ⟨more, rfl⟩ := hEarly
    have hLt : ∀ b ∈ early, b.t < first.t := by
      rw [List.append_assoc] at hSorted
      exact fun b hb => (List.pairwise_append.mp hSorted).2.2 b hb first List.mem_cons_self
    have hMore : more.takeWhile (fun bar => decide (bar.t < first.t)) = [] := by
      rw [List.append_assoc, List.prefix_append_right_inj] at hBars
      cases more with
      | nil => rfl
      | cons m more =>
        rw [List.cons_append, List.cons_prefix_cons] at hBars
        rw [hBars.1]
        simp
    have hWhile : (early ++ more).takeWhile (fun bar => decide (bar.t < first.t)) = early := by
      rw [List.takeWhile_append_of_pos fun b hb => by simpa using hLt b hb, hMore,
        List.append_nil]
    rw [Context.insertBars, hWhile]
    simp only [List.any_eq_true, decide_eq_true_eq]
    split <;> rfl

/-- A copy that follows the bars that went by is the whole history or lacks the bar in flight. -/
theorem copy_cases {early bars : List BarData} {inFlight : Option BarData}
    (hEarly : early <+: bars) (hBars : bars <+: early ++ inFlight.toList) :
    bars = early ++ inFlight.toList ∨
      ∃ bar, inFlight = some bar ∧ bars ++ [bar] = early ++ inFlight.toList := by
  obtain ⟨more, rfl⟩ := hEarly
  rw [List.prefix_append_right_inj] at hBars
  cases inFlight with
  | none =>
    rw [Option.toList_none, List.prefix_nil] at hBars
    exact .inl (by rw [hBars]; rfl)
  | some bar =>
    rw [Option.toList_some] at hBars
    cases more with
    | nil => exact .inr ⟨bar, rfl, by rw [List.append_nil]; rfl⟩
    | cons b more =>
      rw [List.cons_prefix_cons, List.prefix_nil] at hBars
      exact .inl (by rw [hBars.1, hBars.2]; rfl)

/-- A copy that does not reach the first pending bar stopped among the bars that went by. -/
theorem early_ne_nil {early v bars : List BarData} {first : BarData} (hNe : bars ≠ [])
    (hBars : bars <+: early ++ first :: v) (hMisses : ¬∃ bar ∈ bars, first.t ≤ bar.t) :
    early ≠ [] := by
  rintro rfl
  obtain ⟨b, bars', rfl⟩ := List.exists_cons_of_ne_nil hNe
  rw [List.nil_append, List.cons_prefix_cons] at hBars
  exact hMisses ⟨b, List.mem_cons_self, (congrArg BarData.t hBars.1).ge⟩

theorem good_addBars {s : System} (h : Inv sym timeFrame s) {bars : List BarData}
    (hPhase : s.phase = .snapshot bars) :
    Good sym timeFrame
        { s with ctx := (s.ctx.addBars sym timeFrame bars).1, phase := .initialized } ↔
      ∀ first ∈ (s.pending sym timeFrame).head?, ∃ bar ∈ bars, first.t ≤ bar.t := by
  obtain ⟨hTaken, early, hEarly, _, hSnapshot⟩ := h.connecting (by rw [hPhase]; simp)
  obtain ⟨hNe, hPrefix, hCopy⟩ := hSnapshot bars hPhase
  have hSorted := h.sorted
  rw [hEarly] at hSorted hCopy
  have hPending := s.ctx.pendingBars_addBars_self sym timeFrame hNe
  have hAfter : Good sym timeFrame
        { s with ctx := (s.ctx.addBars sym timeFrame bars).1, phase := .initialized } ↔
      (Context.insertBars (s.pending sym timeFrame) bars).getD (s.pending sym timeFrame) =
          s.collected timeFrame ∨ ∃ bar, s.inFlight = some bar ∧
        (Context.insertBars (s.pending sym timeFrame) bars).getD (s.pending sym timeFrame) ++ [bar] =
          s.collected timeFrame := by
    rw [Good, System.Complete, System.pending, hPending, hTaken]
    exact ⟨fun hGood => hGood rfl, fun hGood _ => hGood⟩
  rw [hAfter, hEarly]
  cases hNow : s.pending sym timeFrame with
  | nil =>
    -- The copy is taken as it is, with the bar in flight or without it.
    have hCopied : (Context.insertBars [] bars).getD [] = bars := rfl
    rw [hNow, List.append_nil] at hCopy
    rw [hCopied, List.append_nil]
    simp only [List.head?_nil, Option.not_mem_none, false_implies, implies_true, iff_true]
    exact copy_cases hPrefix hCopy
  | cons first v =>
    rw [hNow] at hSorted hCopy
    rw [insertBars_early hSorted hPrefix hCopy rfl]
    simp only [List.head?_cons, Option.mem_some_iff, forall_eq']
    split
    · rename_i hReaches
      simp only [hReaches, iff_true]
      cases hFlight : s.inFlight with
      | none => exact .inl (List.append_nil _).symm
      | some bar => exact .inr ⟨bar, rfl, rfl⟩
    · rename_i hMisses
      rw [List.append_assoc, List.cons_append] at hCopy
      have hLost := List.length_pos_of_ne_nil (early_ne_nil hNe hCopy hMisses)
      simp only [hMisses, iff_false]
      rintro (hAll | ⟨bar, hFlight, hAlmost⟩)
      · have hLength := congrArg List.length hAll
        simp only [List.length_append] at hLength
        omega
      · have hLength := congrArg List.length hAlmost
        rw [hFlight] at hLength
        simp only [List.length_append, Option.toList_some] at hLength
        omega

theorem good_sendBars {s : System} (h : Inv sym timeFrame s) :
    Good sym timeFrame
        { s with ctx := s.ctx.takeBars.2, taken := s.taken ++ s.ctx.takeBars.1.bars } ↔
      Good sym timeFrame s := by
  obtain ⟨hTaken, hNone⟩ := taken_sendBars h
  rw [Good, Good, System.Complete, System.Complete, System.pending, hNone, hTaken, List.append_nil]
  rfl

theorem good_checkEmpty {s : System} (h : Inv sym timeFrame s)
    (hConnecting : s.phase = .connecting) :
    Good sym timeFrame
      { s with phase := if s.collector.empty timeFrame then .initialized else .checked } := by
  intro hPhase
  obtain ⟨hTaken, early, hEarly, _⟩ := h.connecting (by rw [hConnecting]; simp)
  dsimp only at hPhase
  split at hPhase
  · rename_i hEmpty
    have hNil : s.collected timeFrame = [] := (s.collector.empty_iff timeFrame).mp hEmpty
    rw [hNil] at hEarly
    have hParts := List.append_eq_nil_iff.mp hEarly.symm
    have hPending := (List.append_eq_nil_iff.mp hParts.1).2
    have hComplete : s.taken ++ s.pending sym timeFrame = s.collected timeFrame := by
      rw [hTaken, hPending, hNil]
      rfl
    exact .inl hComplete
  · cases hPhase

theorem good_of_ne {s : System} (hPhase : s.phase ≠ .initialized) : Good sym timeFrame s :=
  fun hNot => absurd hNot hPhase

theorem good_step {s : System} (h : Inv sym timeFrame s) (i : Step) :
    Good sym timeFrame (step sym timeFrame s i) ↔
      Good sym timeFrame s ∧ StepOk sym timeFrame s i := by
  cases i with
  | putBar bar =>
    rw [step]
    split
    · rename_i hNext
      rw [good_putBar h hNext.1 hNext.2]
      exact (and_iff_left trivial).symm
    · exact (and_iff_left trivial).symm
  | onBar =>
    rw [step, StepOk]
    cases hFlight : s.inFlight with
    | none => simp
    | some bar =>
      rw [good_passOn h hFlight]
      simp
  | list => exact (and_iff_left trivial).symm
  | checkEmpty =>
    rw [step]
    split
    · rename_i hNext
      have hNow : Good sym timeFrame s := good_of_ne (by simp [hNext.2])
      exact ⟨fun _ => ⟨hNow, trivial⟩, fun _ => good_checkEmpty h hNext.2⟩
    · exact (and_iff_left trivial).symm
  | getBars =>
    rw [step]
    split
    · rename_i hChecked
      have hNow : Good sym timeFrame s := good_of_ne (by simp [hChecked])
      exact ⟨fun _ => ⟨hNow, trivial⟩, fun _ => good_of_ne (by simp)⟩
    · exact (and_iff_left trivial).symm
  | addBars =>
    rw [step, StepOk]
    split
    · rename_i bars hPhase
      rw [good_addBars h hPhase, hPhase]
      have hNow : Good sym timeFrame s := good_of_ne (by simp [hPhase])
      constructor
      · intro hReaches
        refine ⟨hNow, fun bars' hBars => ?_⟩
        cases hBars
        exact hReaches
      · intro hOk
        exact hOk.2 bars rfl
    · rename_i hNot
      exact (and_iff_left fun bars hBars => absurd hBars (hNot bars)).symm
  | sendBars =>
    rw [step]
    split
    · rw [good_sendBars h]
      exact (and_iff_left trivial).symm
    · exact (and_iff_left trivial).symm

/-- When both sides have finished, what the client got and what is pending is the collected
history exactly if every step was one that finds a bar to go by. -/
theorem history_complete_iff (sym : Symbol) (timeFrame : ℕ) (inputs : List Step)
    (hFinished : (run (step sym timeFrame) {} inputs).Finished) :
    (run (step sym timeFrame) {} inputs).Complete sym timeFrame ↔
      Always (step sym timeFrame) (StepOk sym timeFrame) {} inputs := by
  have hGood : Good sym timeFrame (run (step sym timeFrame) {} inputs) ↔
      (run (step sym timeFrame) {} inputs).Complete sym timeFrame :=
    good_of_idle hFinished.2 hFinished.1
  rw [← hGood, run_iff_always (Inv sym timeFrame) (Good sym timeFrame) (fun s i h => h.step i)
    (fun s i h => good_step h i) Inv.init]
  exact and_iff_right fun hNot => nomatch hNot

/-- A bar that comes between the copy and `add_bars` makes the copy go, and a bar that was copied
and sent before it is passed on comes twice. -/
theorem history_lost_and_doubled :
    let first : BarData := ⟨1, 1, 1, 1, 60⟩
    let second : BarData := ⟨2, 2, 2, 2, 120⟩
    let lost := run (step .eurusd 1) {} [.putBar first, .onBar, .list, .checkEmpty, .getBars,
      .putBar second, .onBar, .addBars]
    let doubled := run (step .eurusd 1) {} [.list, .putBar first, .checkEmpty, .getBars, .addBars,
      .sendBars, .onBar]
    (lost.Finished ∧ lost.collected 1 = [first, second] ∧
        lost.taken ++ lost.pending .eurusd 1 = [second] ∧ ¬lost.Complete .eurusd 1) ∧
      doubled.Finished ∧ doubled.collected 1 = [first] ∧
        doubled.taken ++ doubled.pending .eurusd 1 = [first, first] ∧
          ¬doubled.Complete .eurusd 1 := by
  decide +kernel

theorem history_of_three :
    let inputs : List Step := [.putBar ⟨1, 1, 1, 1, 60⟩, .onBar, .list, .putBar ⟨2, 2, 2, 2, 120⟩,
      .checkEmpty, .onBar, .getBars, .putBar ⟨3, 3, 3, 3, 180⟩, .addBars, .sendBars, .onBar]
    (run (step .eurusd 1) {} inputs).Complete .eurusd 1 ∧
      ((run (step .eurusd 1) {} inputs).Complete .eurusd 1 ↔
        Always (step .eurusd 1) (StepOk .eurusd 1) {} inputs) :=
  ⟨by decide +kernel, history_complete_iff .eurusd 1
    [.putBar ⟨1, 1, 1, 1, 60⟩, .onBar, .list, .putBar ⟨2, 2, 2, 2, 120⟩, .checkEmpty, .onBar,
      .getBars, .putBar ⟨3, 3, 3, 3, 180⟩, .addBars, .sendBars, .onBar] (by decide +kernel)⟩

end Fxquant.Gui.BarHistory
