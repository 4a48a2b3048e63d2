import Fxquant.Gui.Server
import Fxquant.Library.Runs

/-!
# The newest info of a client that connects

`gui_server::on_info` passes a message to the listed contexts first and saves it then; a context
is listed, copies the saved message and writes the copy over what is pending, whatever that is.
An old copy is set right by the next message only.
-/

namespace Fxquant.Gui.LatestInfo

open Runs

inductive Phase where
  | connecting
  | copied (xml : String)
  | initialized
  deriving DecidableEq

/-- `inFlight` is a message between the two parts of `on_info`; `received` are the messages that
`send_info` has taken. -/
structure System where
  server : GuiServer := {}
  inFlight : Option String := none
  listed : Bool := false
  phase : Phase := .connecting
  ctx : Context := {}
  received : List String := []
  published : List String := []

inductive Step where
  | addInfo (xml : String)
  | saveInfo
  | list
  | getInfo
  | addCopy
  | sendInfo
  deriving DecidableEq

variable (sym : Symbol)

def System.pending (s : System) : String := (s.ctx.state sym).info

/-- The engine's calls come from one worker, and only with a message that is not empty. -/
def step (s : System) : Step → System
  | .addInfo xml =>
    if s.inFlight = none ∧ xml ≠ "" then
      { s with
        inFlight := some xml
        ctx := if s.listed then s.ctx.addInfo sym xml else s.ctx
        published := s.published ++ [xml] }
    else s
  | .saveInfo =>
    match s.inFlight with
    | some xml => { s with server := s.server.saveInfo sym xml, inFlight := none }
    | none => s
  | .list => { s with listed := true }
  | .getInfo =>
    if s.listed ∧ s.phase = .connecting then
      { s with phase := .copied (s.server.getInfo sym) }
    else s
  | .addCopy =>
    match s.phase with
    | .copied xml => { s with ctx := s.ctx.addInfo sym xml, phase := .initialized }
    | _ => s
  | .sendInfo =>
    if s.phase = .initialized then
      { s with
        ctx := s.ctx.takeInfo.2
        received :=
          if s.ctx.takeInfo.1 = "" then s.received else s.received ++ [s.ctx.takeInfo.1] }
    else s

def System.Finished (s : System) : Prop := s.inFlight = none ∧ s.phase = .initialized

/-- The last message the client has pending or received. -/
def System.newest (s : System) : Option String :=
  if s.pending sym = "" then s.received.getLast? else some (s.pending sym)

def System.UpToDate (s : System) : Prop := s.newest sym = s.published.getLast?

instance (s : System) : Decidable s.Finished := inferInstanceAs (Decidable (_ ∧ _))

instance (s : System) : Decidable (s.UpToDate sym) := inferInstanceAs (Decidable (_ = _))

/-! ### What always holds -/

structure Inv (s : System) : Prop where
  only : ∀ sym', sym' ≠ sym → (s.ctx.state sym').info = ""
  nonempty : ∀ xml ∈ s.published, xml ≠ ""
  listed : s.phase ≠ .connecting → s.listed = true
  fresh : s.phase ≠ .initialized → s.received = []

variable {sym}

theorem Inv.init : Inv sym {} where
  only _ _ := rfl
  nonempty _ h := nomatch h
  listed h := absurd rfl h
  fresh _ := rfl

theorem taken_sendInfo {s : System} (h : Inv sym s) :
    s.ctx.takeInfo.1 = s.pending sym ∧ ∀ sym', (s.ctx.takeInfo.2.state sym').info = "" :=
  s.ctx.takeFirst_of_only (fun _ _ => rfl) rfl h.only

theorem only_addInfo {ctx : Context} (h : ∀ sym', sym' ≠ sym → (ctx.state sym').info = "")
    (xml : String) : ∀ sym', sym' ≠ sym → ((ctx.addInfo sym xml).state sym').info = "" := by
  intro sym' hOther
  rw [Context.addInfo, Context.state_update_of_ne _ _ hOther]
  exact h sym' hOther

theorem Inv.addInfo {s : System} (h : Inv sym s) {xml : String} (hXml : xml ≠ "") :
    Inv sym
      { s with
        inFlight := some xml
        ctx := if s.listed then s.ctx.addInfo sym xml else s.ctx
        published := s.published ++ [xml] } := by
  refine ⟨?_, ?_, h.listed, h.fresh⟩
  · dsimp only
    split
    · exact only_addInfo h.only xml
    · exact h.only
  · intro other hOther
    cases List.mem_append.mp hOther with
    | inl hOld => exact h.nonempty other hOld
    | inr hNew =>
      rw [List.mem_singleton.mp hNew]
      exact hXml

theorem Inv.step {s : System} (h : Inv sym s) (i : Step) : Inv sym (step sym s i) := by
  cases i with
  | addInfo xml =>
    rw [LatestInfo.step]
    split
    · rename_i hNext
      exact h.addInfo hNext.2
    · exact h
  | saveInfo =>
    rw [LatestInfo.step]
    cases s.inFlight with
    | none => exact h
    | some xml => exact ⟨h.only, h.nonempty, h.listed, h.fresh⟩
  | list => exact ⟨h.only, h.nonempty, fun _ => rfl, h.fresh⟩
  | getInfo =>
    rw [LatestInfo.step]
    split
    · rename_i hNext
      refine ⟨h.only, h.nonempty, fun _ => hNext.1, fun _ => h.fresh ?_⟩
      rw [hNext.2]
      simp
    · exact h
  | addCopy =>
    rw [LatestInfo.step]
    split
    · rename_i xml hPhase
      refine ⟨only_addInfo h.only xml, h.nonempty, fun _ => h.listed ?_, fun hNot => absurd rfl hNot⟩
      rw [hPhase]
      simp
    · exact h
  | sendInfo =>
    rw [LatestInfo.step]
    split
    · rename_i hPhase
      obtain ⟨_, hNone⟩ := taken_sendInfo h
      exact ⟨fun sym' _ => hNone sym', h.nonempty, h.listed, fun hNot => absurd hPhase hNot⟩
    · exact h

/-! ### After the copy -/

/-- Either nothing was published since and the newest message is the same, or it is the last one
published. -/
structure Since (sym : Symbol) (published : List String) (newest : Option String) (s : System) :
    Prop where
  inv : Inv sym s
  initialized : s.phase = .initialized
  newest : (s.published = published ∧ s.newest sym = newest) ∨
    (published.length < s.published.length ∧ s.UpToDate sym)

theorem Since.published_le {published : List String} {newest : Option String} {s : System}
    (h : Since sym published newest s) : published.length ≤ s.published.length := by
  cases h.newest with
  | inl hSame => rw [hSame.1]
  | inr hLast => exact hLast.1.le

theorem newest_sendInfo {s : System} (h : Inv sym s) :
    System.newest sym
        { s with
          ctx := s.ctx.takeInfo.2
          received :=
            if s.ctx.takeInfo.1 = "" then s.received else s.received ++ [s.ctx.takeInfo.1] } =
      s.newest sym := by
  obtain ⟨hTaken, hNone⟩ := taken_sendInfo h
  simp only [System.newest, System.pending, hNone, hTaken, if_true]
  by_cases hEmpty : (s.ctx.state sym).info = "" <;> simp [hEmpty]

theorem Since.step {published : List String} {newest : Option String} {s : System}
    (h : Since sym published newest s) (i : Step) : Since sym published newest (step sym s i) := by
  have hInv := h.inv.step i
  have hListed : s.listed = true := h.inv.listed (by rw [h.initialized]; simp)
  cases i with
  | addInfo xml =>
    rw [LatestInfo.step] at hInv ⊢
    by_cases hNext : s.inFlight = none ∧ xml ≠ ""
    · rw [if_pos hNext] at hInv ⊢
      refine ⟨hInv, h.initialized, .inr ⟨?_, ?_⟩⟩
      · have hLonger := h.published_le
        rw [List.length_append, List.length_singleton]
        omega
      · simp [System.UpToDate, System.newest, System.pending, hListed, Context.addInfo, hNext.2]
    · rw [if_neg hNext]
      exact h
  | saveInfo =>
    rw [LatestInfo.step] at hInv ⊢
    cases hFlight : s.inFlight with
    | none => exact h
    | some xml =>
      rw [hFlight] at hInv
      exact ⟨hInv, h.initialized, h.newest⟩
  | list => exact ⟨hInv, h.initialized, h.newest⟩
  | getInfo =>
    rw [LatestInfo.step, if_neg (by simp [h.initialized])]
    exact h
  | addCopy =>
    rw [LatestInfo.step, h.initialized]
    exact h
  | sendInfo =>
    rw [LatestInfo.step, if_pos h.initialized] at hInv ⊢
    refine ⟨hInv, h.initialized, ?_⟩
    rw [System.UpToDate, newest_sendInfo h.inv]
    exact h.newest

theorem since_run {published : List String} {newest : Option String} {s : System}
    (h : Since sym published newest s) (inputs : List Step) :
    Since sym published newest (run (step sym) s inputs) :=
  run_invariant (Since sym published newest) (fun _ i hs => hs.step i) h inputs

/-- Whoever is initialized has made the one step that writes the copy. -/
theorem exists_addCopy (inputs : List Step)
    (h : (run (step sym) {} inputs).phase = .initialized) :
    ∃ before xml after, inputs = before ++ .addCopy :: after ∧
      (run (step sym) {} before).phase = .copied xml := by
  induction inputs using List.reverseRecOn with
  | nil => cases h
  | append_singleton inputs i ih =>
    by_cases hBefore : (run (step sym) {} inputs).phase = .initialized
    · obtain ⟨before, xml, after, rfl, hPhase⟩ := ih hBefore
      exact ⟨before, xml, after ++ [i], by simp, hPhase⟩
    · rw [run_concat] at h
      cases i with
      | addInfo xml =>
        rw [step] at h
        split at h <;> exact absurd h hBefore
      | saveInfo =>
        rw [step] at h
        split at h <;> exact absurd h hBefore
      | list => exact absurd h hBefore
      | getInfo =>
        rw [step] at h
        split at h
        · cases h
        · exact absurd h hBefore
      | addCopy =>
        rw [step] at h
        split at h
        · rename_i xml hPhase
          exact ⟨inputs, xml, [], rfl, hPhase⟩
        · exact absurd h hBefore
      | sendInfo =>
        rw [step, if_neg hBefore] at h
        exact absurd h hBefore

theorem upToDate_after_copy {s : System} (h : Inv sym s) {xml : String}
    (hPhase : s.phase = .copied xml) :
    (step sym s .addCopy).UpToDate sym ↔ xml = s.published.getLast?.getD "" := by
  have hReceived : s.received = [] := h.fresh (by rw [hPhase]; simp)
  rw [step, hPhase]
  simp only [System.UpToDate, System.newest, System.pending, Context.addInfo,
    Context.state_update_self, hReceived, List.getLast?_nil]
  cases hLast : s.published.getLast? with
  | none => simp
  | some last =>
    have hNe : last ≠ "" := h.nonempty last (List.mem_of_getLast? hLast)
    constructor
    · intro hSame
      split at hSame
      · cases hSame
      · exact Option.some.inj hSame
    · intro hEq
      rw [Option.getD_some] at hEq
      rw [if_neg (by rw [hEq]; exact hNe), hEq]

/-- When all has ended, the client has the newest message exactly if the copy was the last one
published when it was written over the pending message, or another one was published since. -/
theorem newest_iff (sym : Symbol) (inputs : List Step)
    (hFinished : (run (step sym) {} inputs).Finished) :
    ∃ before xml after, inputs = before ++ .addCopy :: after ∧
      (run (step sym) {} before).phase = .copied xml ∧
      ((run (step sym) {} inputs).UpToDate sym ↔
        xml = (run (step sym) {} before).published.getLast?.getD "" ∨
          (run (step sym) {} before).published.length <
            (run (step sym) {} inputs).published.length) := by
  obtain ⟨before, xml, after, rfl, hPhase⟩ := exists_addCopy inputs hFinished.2
  have hInv : Inv sym (run (step sym) {} before) :=
    run_invariant (Inv sym) (fun _ i h => h.step i) Inv.init before
  have hCopy := upToDate_after_copy hInv hPhase
  have hPublished : (step sym (run (step sym) {} before) .addCopy).published =
      (run (step sym) {} before).published := by
    rw [step, hPhase]
  have hInit : (step sym (run (step sym) {} before) .addCopy).phase = .initialized := by
    rw [step, hPhase]
  have hSince := since_run ⟨hInv.step .addCopy, hInit, .inl ⟨hPublished, rfl⟩⟩ after
  refine ⟨before, xml, after, rfl, hPhase, ?_⟩
  rw [run_append, run_cons]
  cases hSince.newest with
  | inl hSame =>
    rw [← hCopy, System.UpToDate, hSame.1, hSame.2, System.UpToDate, hPublished]
    exact (or_iff_left (lt_irrefl _)).symm
  | inr hLater =>
    exact ⟨fun _ => .inr hLater.1, fun _ => hLater.2⟩

/-- The message is passed on before the copy, which is empty, is written over it. -/
theorem newest_overwritten :
    let s := run (step .eurusd) {} [.list, .getInfo, .addInfo "a", .addCopy, .saveInfo]
    s.Finished ∧ s.published = ["a"] ∧ s.pending .eurusd = "" ∧ s.received = [] ∧
      ¬s.UpToDate .eurusd := by
  decide +kernel

theorem newest_kept :
    let inputs : List Step := [.list, .addInfo "a", .saveInfo, .getInfo, .addCopy, .sendInfo]
    (run (step .eurusd) {} inputs).received = ["a"] ∧
      ∃ before xml after, inputs = before ++ .addCopy :: after ∧
        (run (step .eurusd) {} before).phase = .copied xml ∧
        ((run (step .eurusd) {} inputs).UpToDate .eurusd ↔
          xml = (run (step .eurusd) {} before).published.getLast?.getD "" ∨
            (run (step .eurusd) {} before).published.length <
              (run (step .eurusd) {} inputs).published.length) :=
  ⟨by decide +kernel, newest_iff .eurusd
    [.list, .addInfo "a", .saveInfo, .getInfo, .addCopy, .sendInfo] (by decide +kernel)⟩

end Fxquant.Gui.LatestInfo
