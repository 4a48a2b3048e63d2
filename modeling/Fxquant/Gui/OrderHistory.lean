import Fxquant.Gui.Server
import Fxquant.Library.Runs

/-!
# The order events of a client that connects

`gui_server::on_order` passes an event to the listed contexts first and saves it then; a context
is listed, replaces what is pending by the saved events and then sends. The events of a symbol
come from one worker, so one call of `on_order` ends before the next one starts.
-/

namespace Fxquant.Gui.OrderHistory

open Runs

/-- `inFlight` is an event between the two parts of `on_order`; `published` are the events of all
calls that have started. -/
structure System where
  server : GuiServer := {}
  inFlight : Option OrderInfo := none
  listed : Bool := false
  initialized : Bool := false
  ctx : Context := {}
  taken : List OrderInfo := []
  published : List OrderInfo := []

inductive Step where
  | addOrder (info : OrderInfo)
  | saveOrder
  | list
  | addOrders
  | sendOrders

variable (sym : Symbol)

def System.pending (s : System) : List OrderInfo := (s.ctx.state sym).orders

def step (s : System) : Step → System
  | .addOrder info =>
    if s.inFlight = none ∧ info.order.symbol = sym then
      { s with
        inFlight := some info
        ctx := if s.listed then s.ctx.addOrder info else s.ctx
        published := s.published ++ [info] }
    else s
  | .saveOrder =>
    match s.inFlight with
    | some info => { s with server := s.server.saveOrder info, inFlight := none }
    | none => s
  | .list => { s with listed := true }
  | .addOrders =>
    if s.listed ∧ s.initialized = false then
      { s with ctx := s.ctx.addOrders sym (s.server.getOrders sym), initialized := true }
    else s
  | .sendOrders =>
    if s.initialized then
      { s with ctx := s.ctx.takeOrders.2, taken := s.taken ++ s.ctx.takeOrders.1 }
    else s

/-- No call of `on_order` is going on, and the context is initialized. -/
def System.Finished (s : System) : Prop := s.inFlight = none ∧ s.initialized = true

def System.Complete (s : System) : Prop := s.taken ++ s.pending sym = s.published

instance (s : System) : Decidable s.Finished := inferInstanceAs (Decidable (_ ∧ _))

instance (s : System) : Decidable (s.Complete sym) := inferInstanceAs (Decidable (_ = _))

/-- The saved events replace the pending ones while no event is between the two parts. -/
def StepOk (s : System) : Step → Prop
  | .addOrders => s.listed ∧ s.initialized = false → s.inFlight = none
  | _ => True

/-! ### What always holds -/

structure Inv (s : System) : Prop where
  only : ∀ sym', sym' ≠ sym → (s.ctx.state sym').orders = []
  saved : s.published = s.server.getOrders sym ++ s.inFlight.toList
  flight : ∀ info, s.inFlight = some info → info.order.symbol = sym
  listed : s.initialized = true → s.listed = true
  fresh : s.initialized = false → s.taken = []

variable {sym}

theorem Inv.init : Inv sym {} where
  only _ _ := rfl
  saved := rfl
  flight _ h := nomatch h
  listed h := nomatch h
  fresh _ := rfl

theorem taken_sendOrders {s : System} (h : Inv sym s) :
    s.ctx.takeOrders.1 = s.pending sym ∧ ∀ sym', (s.ctx.takeOrders.2.state sym').orders = [] :=
  s.ctx.takeFirst_of_only (fun _ _ => rfl) rfl h.only

theorem Inv.addOrder {s : System} (h : Inv sym s) {info : OrderInfo} (hFlight : s.inFlight = none)
    (hSym : info.order.symbol = sym) :
    Inv sym
      { s with
        inFlight := some info
        ctx := if s.listed then s.ctx.addOrder info else s.ctx
        published := s.published ++ [info] } := by
  refine ⟨?_, ?_, ?_, h.listed, h.fresh⟩
  · intro sym' hOther
    dsimp only
    split
    · rw [Context.addOrder, Context.state_update_of_ne _ _ (hSym ▸ hOther)]
      exact h.only sym' hOther
    · exact h.only sym' hOther
  · have hSaved := h.saved
    rw [hFlight, Option.toList_none, List.append_nil] at hSaved
    rw [hSaved]
    rfl
  · rintro other ⟨⟩
    exact hSym

theorem Inv.step {s : System} (h : Inv sym s) (i : Step) : Inv sym (step sym s i) := by
  cases i with
  | addOrder info =>
    rw [OrderHistory.step]
    split
    · rename_i hNext
      exact h.addOrder hNext.1 hNext.2
    · exact h
  | saveOrder =>
    rw [OrderHistory.step]
    cases hFlight : s.inFlight with
    | none => exact h
    | some info =>
      refine ⟨h.only, ?_, fun _ hNone => (nomatch hNone), h.listed, h.fresh⟩
      obtain rfl := h.flight info hFlight
      rw [GuiServer.getOrders_saveOrder, h.saved, hFlight]
      simp
  | list => exact ⟨h.only, h.saved, h.flight, fun _ => rfl, h.fresh⟩
  | addOrders =>
    rw [OrderHistory.step]
    split
    · rename_i hNext
      refine ⟨?_, h.saved, h.flight, fun _ => hNext.1, fun hNot => nomatch hNot⟩
      intro sym' hOther
      rw [Context.addOrders, Context.state_update_of_ne _ _ hOther]
      exact h.only sym' hOther
    · exact h
  | sendOrders =>
    rw [OrderHistory.step]
    split
    · rename_i hInit
      obtain ⟨_, hNone⟩ := taken_sendOrders h
      refine ⟨fun sym' _ => hNone sym', h.saved, h.flight, h.listed, fun hNot => ?_⟩
      rw [hInit] at hNot
      cases hNot
    · exact h

/-! ### What a step does to the events -/

def Good (sym : Symbol) (s : System) : Prop := s.initialized = true → s.Complete sym

theorem good_addOrder {s : System} (h : Inv sym s) {info : OrderInfo}
    (hSym : info.order.symbol = sym) :
    Good sym
        { s with
          inFlight := some info
          ctx := if s.listed then s.ctx.addOrder info else s.ctx
          published := s.published ++ [info] } ↔ Good sym s := by
  subst hSym
  apply imp_congr_right
  intro hInit
  simp only [System.Complete, System.pending, h.listed hInit, if_true, Context.addOrder,
    Context.state_update_self, ← List.append_assoc]
  exact List.append_left_inj [info]

theorem good_addOrders {s : System} (h : Inv sym s) (hFresh : s.initialized = false) :
    Good sym { s with ctx := s.ctx.addOrders sym (s.server.getOrders sym), initialized := true } ↔
      s.inFlight = none := by
  have hAfter : Good sym
        { s with ctx := s.ctx.addOrders sym (s.server.getOrders sym), initialized := true } ↔
      s.server.getOrders sym = s.published := by
    simp [Good, System.Complete, System.pending, Context.addOrders, h.fresh hFresh]
  rw [hAfter, h.saved]
  cases s.inFlight with
  | none => simp
  | some info => simp

theorem good_sendOrders {s : System} (h : Inv sym s) :
    Good sym { s with ctx := s.ctx.takeOrders.2, taken := s.taken ++ s.ctx.takeOrders.1 } ↔
      Good sym s := by
  obtain ⟨hTaken, hNone⟩ := taken_sendOrders h
  rw [Good, Good, System.Complete, System.Complete, System.pending, hNone, hTaken, List.append_nil]

theorem good_step {s : System} (h : Inv sym s) (i : Step) :
    Good sym (step sym s i) ↔ Good sym s ∧ StepOk s i := by
  cases i with
  | addOrder info =>
    rw [step]
    split
    · rename_i hNext
      rw [good_addOrder h hNext.2]
      exact (and_iff_left trivial).symm
    · exact (and_iff_left trivial).symm
  | saveOrder =>
    rw [step]
    cases s.inFlight with
    | none => exact (and_iff_left trivial).symm
    | some info => exact (and_iff_left trivial).symm
  | list => exact (and_iff_left trivial).symm
  | addOrders =>
    rw [step, StepOk]
    split
    · rename_i hNext
      have hNow : Good sym s := fun hInit => nomatch hNext.2.symm.trans hInit
      rw [good_addOrders h hNext.2]
      exact ⟨fun hIdle => ⟨hNow, fun _ => hIdle⟩, fun hOk => hOk.2 hNext⟩
    · rename_i hNot
      exact (and_iff_left fun hNext => absurd hNext hNot).symm
  | sendOrders =>
    rw [step]
    split
    · rw [good_sendOrders h]
      exact (and_iff_left trivial).symm
    · exact (and_iff_left trivial).symm

/-- When all calls and the initialization have ended, the client has got or will get all events in
their order exactly if no call was going on when the saved events were copied. -/
theorem events_complete_iff (sym : Symbol) (inputs : List Step)
    (hFinished : (run (step sym) {} inputs).Finished) :
    (run (step sym) {} inputs).Complete sym ↔ Always (step sym) StepOk {} inputs := by
  have hGood : Good sym (run (step sym) {} inputs) ↔ (run (step sym) {} inputs).Complete sym :=
    ⟨fun hGood => hGood hFinished.2, fun hComplete _ => hComplete⟩
  rw [← hGood, run_iff_always (Inv sym) (Good sym) (fun s i h => h.step i)
    (fun s i h => good_step h i) Inv.init]
  exact and_iff_right fun hNot => nomatch hNot

def anEvent : OrderInfo where
  order := { type := .buyOrder, id := 1, symbol := .eurusd, volume := 1, orderPrice := 1 }
  action := .submitted

/-- The copy is made between the two parts of the only call. -/
theorem event_lost :
    let s := run (step .eurusd) {} [.list, .addOrder anEvent, .addOrders, .saveOrder]
    s.Finished ∧ s.published = [anEvent] ∧ s.taken ++ s.pending .eurusd = [] ∧
      ¬s.Complete .eurusd := by
  decide +kernel

theorem event_kept :
    let inputs : List Step :=
      [.list, .addOrder anEvent, .saveOrder, .addOrders, .sendOrders, .addOrder anEvent, .saveOrder]
    (run (step .eurusd) {} inputs).published.length = 2 ∧
      ((run (step .eurusd) {} inputs).Complete .eurusd ↔
        Always (step .eurusd) StepOk {} inputs) :=
  ⟨by decide +kernel, events_complete_iff .eurusd
    [.list, .addOrder anEvent, .saveOrder, .addOrders, .sendOrders, .addOrder anEvent, .saveOrder]
    (by decide +kernel)⟩

end Fxquant.Gui.OrderHistory
