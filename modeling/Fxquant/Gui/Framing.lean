import Fxquant.Gui.Sending

/-!
# The frames on the socket

The send thread and the receive thread, which answers a ping, write to one socket. `send_lock_`
keeps their messages apart, but the records of a bar array are written without it, so an answer
can land between the header of an array and its last record. All writes succeed here.
-/

namespace Fxquant.Gui.Framing

open Feeder Runs

inductive Step where
  | send
  | pong
  | data (d : Data)

def step (s : Sender) : Step → Sender
  | .send => s.act true
  | .pong =>
    if s.canceled || s.aborted then s
    else { s with stream := s.stream ++ [⟨.message .pong, true⟩] }
  | .data d => { s with ctx := s.ctx.add d }

/-- What a client reads: a whole message, or one raw record. -/
inductive Item where
  | message (m : Message)
  | record (bar : BarData)
  deriving DecidableEq

def items : Write → List Item
  | .message m => [.message m]
  | .records bars => bars.map .record

def itemsOf (stream : List Sent) : List Item := stream.flatMap fun sent => items sent.write

def isArray : Message → Bool
  | .barArray _ _ _ => true
  | _ => false

def header (t : Taken) : Message := .barArray t.sym t.timeFrame t.bars.length

/-- A message of its own, or the header of an array and the records of a vector that was taken,
in their order. -/
def IsFrame (taken : List Taken) (f : List Item) : Prop :=
  (∃ m, isArray m = false ∧ f = [.message m]) ∨
    ∃ t ∈ taken, f = .message (header t) :: t.bars.map .record

/-- The stream is a concatenation of frames, the last of which may be on its way. -/
def Framed (s : Sender) : Prop :=
  ∃ frames : List (List Item),
    (∀ f ∈ frames, IsFrame s.taken f) ∧ itemsOf s.stream <+: frames.flatten

def leading : List Write → List BarData
  | .records bars :: left => bars ++ leading left
  | _ => []

/-- The records of an array that has its header on the socket, and not yet its last record. -/
def openBars (s : Sender) : List BarData :=
  match s.pc with
  | .writing _ left => leading left
  | _ => []

/-- No answer to a ping while an array is open. -/
def StepOk (s : Sender) : Step → Prop
  | .pong => openBars s = []
  | _ => True

/-! ### The writes of a function -/

inductive Job (taken : List Taken) : List Write → Prop where
  | messages (ms : List Message) (h : ∀ m ∈ ms, isArray m = false) :
      Job taken (ms.map .message)
  | array (t : Taken) (cs : List (List BarData)) (h : t ∈ taken) (hBars : cs.flatten = t.bars) :
      Job taken (.message (header t) :: cs.map .records)
  | chunks (cs : List (List BarData)) : Job taken (cs.map .records)

structure Inv (s : Sender) : Prop where
  canceled : s.canceled = false
  aborted : s.aborted = false
  job : ∀ fn left, s.pc = .writing fn left → Job s.taken left

theorem Job.mono {taken taken' : List Taken} (h : taken ⊆ taken') {left : List Write}
    (hJob : Job taken left) : Job taken' left := by
  cases hJob with
  | messages ms hm => exact .messages ms hm
  | array t cs ht hBars => exact .array t cs (h ht) hBars
  | chunks cs => exact .chunks cs

theorem job_barWrites {taken : List Taken} {t : Taken} (h : t ∈ taken) :
    Job taken (barWrites t) := by
  obtain ⟨sym, timeFrame, bars⟩ := t
  match bars with
  | [] =>
    apply Job.messages []
    intro m hm
    exact absurd hm List.not_mem_nil
  | [bar] =>
    apply Job.messages [.bar sym timeFrame bar]
    intro m hm
    rw [List.mem_singleton.mp hm]
    rfl
  | bar :: bar' :: rest =>
    apply Job.array ⟨sym, timeFrame, bar :: bar' :: rest⟩ _ h
    exact flatten_chunks le_rfl

theorem Job.tail {taken : List Taken} {w : Write} {left : List Write}
    (h : Job taken (w :: left)) : Job taken left := by
  generalize hAll : w :: left = all at h
  cases h with
  | messages ms hm =>
    cases ms with
    | nil => cases hAll
    | cons m ms =>
      obtain ⟨_, rfl⟩ := List.cons.inj hAll
      exact .messages ms fun m' hm' => hm m' (List.mem_cons_of_mem _ hm')
  | array t cs ht hBars =>
    obtain ⟨_, rfl⟩ := List.cons.inj hAll
    exact .chunks cs
  | chunks cs =>
    cases cs with
    | nil => cases hAll
    | cons c cs =>
      obtain ⟨_, rfl⟩ := List.cons.inj hAll
      exact .chunks cs

theorem leading_records (cs : List (List BarData)) : leading (cs.map .records) = cs.flatten := by
  induction cs with
  | nil => rfl
  | cons c cs ih => rw [List.map_cons, leading, ih, List.flatten_cons]

theorem leading_messages (ms : List Message) : leading (ms.map .message) = [] := by
  cases ms <;> rfl

/-- A message that is written next opens an array, or leaves none open. -/
theorem Job.message {taken : List Taken} {m : Message} {left : List Write}
    (h : Job taken (.message m :: left)) :
    (isArray m = false ∧ leading left = []) ∨ ∃ t ∈ taken, m = header t ∧ leading left = t.bars := by
  generalize hAll : Write.message m :: left = all at h
  cases h with
  | messages ms hm =>
    cases ms with
    | nil => cases hAll
    | cons m' ms =>
      obtain ⟨hEq, rfl⟩ := List.cons.inj hAll
      cases hEq
      exact .inl ⟨hm m List.mem_cons_self, leading_messages ms⟩
  | array t cs ht hBars =>
    obtain ⟨hEq, rfl⟩ := List.cons.inj hAll
    cases hEq
    exact .inr ⟨t, ht, rfl, (leading_records cs).trans hBars⟩
  | chunks cs =>
    cases cs with
    | nil => cases hAll
    | cons c cs => cases (List.cons.inj hAll).1

/-! ### One step -/

/-- What a step writes between two counts of open records. -/
inductive Wrote (taken : List Taken) : List BarData → List Item → List BarData → Prop where
  | nothing (bars : List BarData) : Wrote taken bars [] bars
  | message (m : Message) (h : isArray m = false) : Wrote taken [] [.message m] []
  | header (t : Taken) (h : t ∈ taken) : Wrote taken [] [.message (header t)] t.bars
  | records (bars left : List BarData) :
      Wrote taken (bars ++ left) (bars.map .record) left

theorem itemsOf_concat (stream : List Sent) (sent : Sent) :
    itemsOf (stream ++ [sent]) = itemsOf stream ++ items sent.write := by
  rw [itemsOf, List.flatMap_append, List.flatMap_singleton]
  rfl

/-- Steps that write nothing and take no bars. -/
structure Same (s s' : Sender) : Prop where
  canceled : s'.canceled = s.canceled
  aborted : s'.aborted = s.aborted
  stream : s'.stream = s.stream
  taken : s'.taken = s.taken

theorem same_returned (s : Sender) (result : Bool) (fn : Fn) : Same s (s.returned result fn) := by
  obtain ⟨pc, initialized, hReturned⟩ := s.returned_eq result fn
  rw [hReturned]
  exact ⟨rfl, rfl, rfl, rfl⟩

/-- A function that returns leaves nothing to write but the status. -/
theorem returned_pc (s : Sender) (result : Bool) (fn : Fn) :
    (∀ fn' left, (s.returned result fn).pc ≠ .writing fn' left) ∨
      (s.returned result fn).pc = .writing .sendStatus [.message .status] := by
  cases fn with
  | sendOrders barsSent =>
    rw [Sender.returned]
    split
    · split
      · exact .inl fun _ _ => Pc.noConfusion
      · exact .inr rfl
    · exact .inl fun _ _ => Pc.noConfusion
  | _ => exact .inl fun _ _ => Pc.noConfusion

/-- What the action of the send thread puts on the socket. -/
def Effect (s s' : Sender) : Prop :=
  s.taken ⊆ s'.taken ∧ ∃ is, itemsOf s'.stream = itemsOf s.stream ++ is ∧
    Wrote s'.taken (openBars s) is (openBars s')

theorem Effect.quiet {s s' : Sender} (hTaken : s.taken ⊆ s'.taken) (hStream : s'.stream = s.stream)
    (hOpen : openBars s' = openBars s) : Effect s s' := by
  refine ⟨hTaken, [], ?_, ?_⟩
  · rw [hStream, List.append_nil]
  · rw [hOpen]
    exact .nothing _

theorem openBars_of_pc {s : Sender} (h : ∀ fn left, s.pc ≠ .writing fn left) : openBars s = [] := by
  rw [openBars]
  split
  · rename_i fn left hPc
    exact absurd hPc (h fn left)
  · rfl

theorem leading_barWrites (t : Taken) : leading (barWrites t) = [] := by
  obtain ⟨sym, timeFrame, bars⟩ := t
  match bars with
  | [] => rfl
  | [bar] => rfl
  | bar :: bar' :: rest => rfl

section Quiet

variable {s s' : Sender} (h : Inv s) (hOpen : openBars s = []) (hSame : Same s s')

include h hOpen hSame

/-- The thread goes on to take something. -/
theorem quiet_of_pc (hPc : ∀ fn left, s'.pc ≠ .writing fn left) : Inv s' ∧ Effect s s' := by
  constructor
  · exact ⟨hSame.canceled.trans h.canceled, hSame.aborted.trans h.aborted,
      fun fn left hWriting => absurd hWriting (hPc fn left)⟩
  · apply Effect.quiet (hSame.taken ▸ List.Subset.refl _) hSame.stream
    rw [hOpen, openBars_of_pc hPc]

/-- The thread goes on to write messages that open no array. -/
theorem quiet_of_messages {fn : Fn} {ms : List Message} (hPc : s'.pc = .writing fn (ms.map .message))
    (hms : ∀ m ∈ ms, isArray m = false) : Inv s' ∧ Effect s s' := by
  constructor
  · refine ⟨hSame.canceled.trans h.canceled, hSame.aborted.trans h.aborted, ?_⟩
    intro fn' left hWriting
    obtain ⟨_, rfl⟩ := Pc.writing.inj (hPc.symm.trans hWriting)
    exact .messages ms hms
  · apply Effect.quiet (hSame.taken ▸ List.Subset.refl _) hSame.stream
    rw [hOpen, openBars, hPc]
    exact leading_messages ms

theorem quiet_of_returned {result : Bool} {fn : Fn}
    (hPc : s'.pc = (s.returned result fn).pc) : Inv s' ∧ Effect s s' := by
  cases returned_pc s result fn with
  | inl hNone => exact quiet_of_pc h hOpen hSame fun fn' left => hPc ▸ hNone fn' left
  | inr hStatus =>
    have hMessage : s'.pc = .writing .sendStatus ([.status].map .message) := hPc.trans hStatus
    apply quiet_of_messages h hOpen hSame hMessage
    intro m hm
    rw [List.mem_singleton.mp hm]
    rfl

end Quiet

theorem returned_ctx (s : Sender) (ctx : Context) (result : Bool) (fn : Fn) :
    Sender.returned { s with ctx } result fn = { s.returned result fn with ctx } := by
  cases fn with
  | sendOrders barsSent =>
    rw [Sender.returned, Sender.returned]
    split
    · split <;> rfl
    · rfl
  | _ => rfl

theorem loop_effect {s : Sender} (h : Inv s) (hUp : ¬(s.canceled || s.aborted) = true)
    (hPc : s.pc = .loop) : Inv (s.act true) ∧ Effect s (s.act true) := by
  have hOpen : openBars s = [] := openBars_of_pc (by simp [hPc])
  by_cases hNone : s.ctx.takeBars.1.bars = []
  · have hAct : s.act true = { s with ctx := s.ctx.takeBars.2, pc := .takeOrders false } := by
      simp only [Sender.act, hPc, if_neg hUp, if_pos hNone]
    rw [hAct]
    exact quiet_of_pc h hOpen ⟨rfl, rfl, rfl, rfl⟩ fun _ _ => Pc.noConfusion
  · have hAct : s.act true = { s with
        ctx := s.ctx.takeBars.2
        taken := s.taken ++ [s.ctx.takeBars.1]
        pc := .writing .sendBars (barWrites s.ctx.takeBars.1) } := by
      simp only [Sender.act, hPc, if_neg hUp, if_neg hNone]
    rw [hAct]
    constructor
    · refine ⟨h.canceled, h.aborted, ?_⟩
      intro fn left hWriting
      obtain ⟨_, rfl⟩ := Pc.writing.inj hWriting
      exact job_barWrites (List.mem_append_right _ List.mem_cons_self)
    · refine Effect.quiet (List.subset_append_left _ _) rfl ?_
      rw [hOpen]
      exact leading_barWrites _

theorem takeOrders_effect {s : Sender} (h : Inv s) {barsSent : Bool}
    (hPc : s.pc = .takeOrders barsSent) : Inv (s.act true) ∧ Effect s (s.act true) := by
  have hOpen : openBars s = [] := openBars_of_pc (by simp [hPc])
  by_cases hNone : s.ctx.takeOrders.1 = []
  · have hAct : s.act true =
        { s.returned false (.sendOrders barsSent) with ctx := s.ctx.takeOrders.2 } := by
      rw [← returned_ctx]
      simp only [Sender.act, hPc, if_pos hNone]
    have hReturned := same_returned s false (.sendOrders barsSent)
    rw [hAct]
    exact quiet_of_returned h hOpen
      ⟨hReturned.canceled, hReturned.aborted, hReturned.stream, hReturned.taken⟩ rfl
  · have hAct : s.act true = { s with
        ctx := s.ctx.takeOrders.2
        pc := .writing (.sendOrders barsSent)
          ((s.ctx.takeOrders.1.map .order).map .message) } := by
      simp only [Sender.act, hPc, if_neg hNone, List.map_map]
      rfl
    rw [hAct]
    refine quiet_of_messages h hOpen ⟨rfl, rfl, rfl, rfl⟩ rfl ?_
    intro m hm
    obtain ⟨info, _, rfl⟩ := List.mem_map.mp hm
    rfl

theorem takeInfo_effect {s : Sender} (h : Inv s) (hPc : s.pc = .takeInfo) :
    Inv (s.act true) ∧ Effect s (s.act true) := by
  have hOpen : openBars s = [] := openBars_of_pc (by simp [hPc])
  by_cases hNone : s.ctx.takeInfo.1 = ""
  · have hAct : s.act true = { s with ctx := s.ctx.takeInfo.2, pc := .takeTicks } := by
      simp only [Sender.act, hPc, if_pos hNone]
    rw [hAct]
    exact quiet_of_pc h hOpen ⟨rfl, rfl, rfl, rfl⟩ fun _ _ => Pc.noConfusion
  · have hAct : s.act true = { s with
        ctx := s.ctx.takeInfo.2
        pc := .writing .sendInfo ([.info s.ctx.takeInfo.1].map .message) } := by
      simp only [Sender.act, hPc, if_neg hNone, List.map_cons, List.map_nil]
    rw [hAct]
    refine quiet_of_messages h hOpen ⟨rfl, rfl, rfl, rfl⟩ rfl ?_
    intro m hm
    rw [List.mem_singleton.mp hm]
    rfl

theorem takeTicks_effect {s : Sender} (h : Inv s) (hPc : s.pc = .takeTicks) :
    Inv (s.act true) ∧ Effect s (s.act true) := by
  have hOpen : openBars s = [] := openBars_of_pc (by simp [hPc])
  have hAct : s.act true = { s with
      ctx := s.ctx.takeTicks.2
      pc := .writing .sendTicks
        ((s.ctx.takeTicks.1.map fun e => .tick e.1 e.2).map .message) } := by
    simp only [Sender.act, hPc, List.map_map]
    rfl
  rw [hAct]
  refine quiet_of_messages h hOpen ⟨rfl, rfl, rfl, rfl⟩ rfl ?_
  intro m hm
  obtain ⟨_, _, rfl⟩ := List.mem_map.mp hm
  rfl

theorem write_effect {s : Sender} (h : Inv s) (hUp : ¬(s.canceled || s.aborted) = true) {fn : Fn}
    {w : Write} {left : List Write} (hPc : s.pc = .writing fn (w :: left)) :
    Inv (s.act true) ∧ Effect s (s.act true) := by
  have hAct : s.act true =
      { s with stream := s.stream ++ [⟨w, true⟩], pc := .writing fn left } := by
    simp only [Sender.act, hPc, if_neg hUp, Sender.afterWrite, if_true]
  have hJob : Job s.taken (w :: left) := h.job fn _ hPc
  have hOpen : openBars s = leading (w :: left) := by rw [openBars, hPc]
  rw [hAct]
  constructor
  · refine ⟨h.canceled, h.aborted, ?_⟩
    intro fn' left' hWriting
    obtain ⟨_, rfl⟩ := Pc.writing.inj hWriting
    exact hJob.tail
  · refine ⟨List.Subset.refl _, items w, itemsOf_concat _ _, ?_⟩
    rw [hOpen]
    cases w with
    | message m =>
      cases hJob.message with
      | inl hAlone =>
        obtain ⟨hm, hLeft⟩ := hAlone
        change Wrote s.taken [] [.message m] (leading left)
        rw [hLeft]
        exact .message m hm
      | inr hArray =>
        obtain ⟨t, ht, rfl, hLeft⟩ := hArray
        change Wrote s.taken [] [.message (header t)] (leading left)
        rw [hLeft]
        exact .header t ht
    | records bars => exact .records bars (leading left)

theorem act_effect {s : Sender} (h : Inv s) : Inv (s.act true) ∧ Effect s (s.act true) := by
  have hUp : ¬(s.canceled || s.aborted) = true := by simp [h.canceled, h.aborted]
  cases hPc : s.pc with
  | loop => exact loop_effect h hUp hPc
  | takeOrders barsSent => exact takeOrders_effect h hPc
  | takeInfo => exact takeInfo_effect h hPc
  | takeTicks => exact takeTicks_effect h hPc
  | writing fn left =>
    cases left with
    | nil =>
      have hAct : s.act true = s.returned true fn := by simp only [Sender.act, hPc]
      have hOpen : openBars s = [] := by
        rw [openBars, hPc]
        rfl
      rw [hAct]
      exact quiet_of_returned h hOpen (same_returned s true fn) rfl
    | cons w left => exact write_effect h hUp hPc
  | ended =>
    have hAct : s.act true = s := by simp only [Sender.act, hPc]
    rw [hAct]
    exact ⟨h, .quiet (List.Subset.refl _) rfl rfl⟩

theorem inv_step {s : Sender} (h : Inv s) (i : Step) : Inv (step s i) := by
  cases i with
  | send => exact (act_effect h).1
  | pong =>
    rw [step]
    split
    · exact h
    · exact ⟨h.canceled, h.aborted, h.job⟩
  | data d => exact ⟨h.canceled, h.aborted, h.job⟩

theorem step_effect {s : Sender} (h : Inv s) {i : Step} (hOk : StepOk s i) :
    Effect s (step s i) := by
  cases i with
  | send => exact (act_effect h).2
  | pong =>
    have hOpen : openBars s = [] := hOk
    rw [step]
    split
    · exact .quiet (List.Subset.refl _) rfl rfl
    · refine ⟨List.Subset.refl _, [.message .pong], itemsOf_concat _ _, ?_⟩
      change Wrote s.taken (openBars s) [.message .pong] (openBars s)
      rw [hOpen]
      exact .message .pong rfl
  | data d => exact .quiet (List.Subset.refl _) rfl rfl

/-! ### The frames -/

/-- A reader that counts the records it still expects. -/
def scan : Option ℕ → Item → Option ℕ
  | some 0, .message (.barArray _ _ count) => some count
  | some 0, .message _ => some 0
  | some (n + 1), .record _ => some n
  | _, _ => none

def scanTo (s : Sender) : Option ℕ := (itemsOf s.stream).foldl scan (some 0)

theorem foldl_scan_none (is : List Item) : is.foldl scan none = none := by
  induction is with
  | nil => rfl
  | cons i is ih => exact ih

theorem scan_message {m : Message} (h : isArray m = false) :
    scan (some 0) (.message m) = some 0 := by
  cases m with
  | barArray sym timeFrame count => cases h
  | _ => rfl

theorem foldl_scan_records (bars : List BarData) (n : ℕ) :
    (bars.map Item.record).foldl scan (some (bars.length + n)) = some n := by
  induction bars with
  | nil => rw [List.length_nil, Nat.zero_add, List.map_nil, List.foldl_nil]
  | cons bar bars ih =>
    rw [List.length_cons, Nat.add_right_comm, List.map_cons, List.foldl_cons]
    exact ih

theorem foldl_scan_frames {taken : List Taken} {frames : List (List Item)}
    (h : ∀ f ∈ frames, IsFrame taken f) : frames.flatten.foldl scan (some 0) = some 0 := by
  induction frames with
  | nil => rfl
  | cons f frames ih =>
    have hFrame : f.foldl scan (some 0) = some 0 := by
      cases h f List.mem_cons_self with
      | inl hMessage =>
        obtain ⟨m, hm, rfl⟩ := hMessage
        exact scan_message hm
      | inr hArray =>
        obtain ⟨t, _, rfl⟩ := hArray
        exact foldl_scan_records t.bars 0
    rw [List.flatten_cons, List.foldl_append, hFrame]
    exact ih fun f hf => h f (List.mem_cons_of_mem _ hf)

theorem Framed.scanTo_ne_none {s : Sender} (h : Framed s) : scanTo s ≠ none := by
  obtain ⟨frames, hFrames, rest, hRest⟩ := h
  have hAll := foldl_scan_frames hFrames
  rw [← hRest, List.foldl_append] at hAll
  intro hNone
  rw [scanTo] at hNone
  rw [hNone, foldl_scan_none] at hAll
  cases hAll

theorem Wrote.scan {taken : List Taken} {bars bars' : List BarData} {is : List Item}
    (h : Wrote taken bars is bars') :
    is.foldl scan (some bars.length) = some bars'.length := by
  cases h with
  | nothing => rfl
  | message m hm => exact scan_message hm
  | header t ht => rfl
  | records left =>
    rw [List.length_append]
    exact foldl_scan_records _ _

/-- The reader is lost, or waits for the open records. -/
def Counted (s : Sender) : Prop := Inv s ∧ (scanTo s = none ∨ scanTo s = some (openBars s).length)

theorem scanTo_pong {s : Sender} (h : Counted s) (hOpen : openBars s ≠ []) :
    scanTo (step s .pong) = none := by
  obtain ⟨hInv, hCount⟩ := h
  have hPong : step s .pong = { s with stream := s.stream ++ [⟨.message .pong, true⟩] } := by
    rw [step, if_neg (by simp [hInv.canceled, hInv.aborted])]
  rw [hPong, scanTo, itemsOf_concat, List.foldl_append]
  change scan (scanTo s) (.message .pong) = none
  cases hCount with
  | inl hNone => rw [hNone]; rfl
  | inr hSome =>
    cases hBars : openBars s with
    | nil => exact absurd hBars hOpen
    | cons bar bars => rw [hSome, hBars]; rfl

theorem scanTo_step {s : Sender} (h : Counted s) {i : Step} (hOk : StepOk s i) :
    scanTo s = none ∧ scanTo (step s i) = none ∨
      scanTo s ≠ none ∧ scanTo (step s i) = some (openBars (step s i)).length := by
  obtain ⟨hInv, hCount⟩ := h
  obtain ⟨_, is, hItems, hWrote⟩ := step_effect hInv hOk
  rw [scanTo, scanTo, hItems, List.foldl_append]
  cases hCount with
  | inl hNone =>
    left
    rw [scanTo] at hNone
    rw [hNone, foldl_scan_none]
    exact ⟨rfl, rfl⟩
  | inr hSome =>
    right
    rw [scanTo] at hSome
    rw [hSome, hWrote.scan]
    exact ⟨Option.some_ne_none _, rfl⟩

theorem stepOk_or (s : Sender) (i : Step) : StepOk s i ∨ i = .pong ∧ openBars s ≠ [] := by
  cases i with
  | pong =>
    cases hBars : openBars s with
    | nil => exact .inl hBars
    | cons bar bars => exact .inr ⟨rfl, List.cons_ne_nil _ _⟩
  | _ => exact .inl trivial

theorem counted_step {s : Sender} (h : Counted s) (i : Step) : Counted (step s i) := by
  refine ⟨inv_step h.1 i, ?_⟩
  cases stepOk_or s i with
  | inl hOk =>
    cases scanTo_step h hOk with
    | inl hNone => exact .inl hNone.2
    | inr hSome => exact .inr hSome.2
  | inr hPong =>
    obtain ⟨rfl, hOpen⟩ := hPong
    exact .inl (scanTo_pong h hOpen)

theorem scanTo_step_iff {s : Sender} (h : Counted s) (i : Step) :
    scanTo (step s i) ≠ none ↔ scanTo s ≠ none ∧ StepOk s i := by
  cases stepOk_or s i with
  | inl hOk =>
    cases scanTo_step h hOk with
    | inl hNone => simp [hNone]
    | inr hSome => simp [hSome, hOk]
  | inr hPong =>
    obtain ⟨rfl, hOpen⟩ := hPong
    have hNotOk : ¬StepOk s .pong := hOpen
    simp [scanTo_pong h hOpen, hNotOk]

/-- Whole frames, once the open records are added to the stream. -/
def Complete (s : Sender) : Prop :=
  ∃ frames : List (List Item), (∀ f ∈ frames, IsFrame s.taken f) ∧
    itemsOf s.stream ++ (openBars s).map .record = frames.flatten

theorem IsFrame.mono {taken taken' : List Taken} (h : taken ⊆ taken') {f : List Item}
    (hFrame : IsFrame taken f) : IsFrame taken' f := by
  rcases hFrame with hMessage | ⟨t, ht, hf⟩
  · exact .inl hMessage
  · exact .inr ⟨t, h ht, hf⟩

theorem complete_step {s : Sender} (h : Inv s ∧ Complete s) {i : Step} (hOk : StepOk s i) :
    Complete (step s i) := by
  obtain ⟨hInv, frames, hFrames, hStream⟩ := h
  obtain ⟨hTaken, is, hItems, hWrote⟩ := step_effect hInv hOk
  have hOld : ∀ f ∈ frames, IsFrame (step s i).taken f := fun f hf => (hFrames f hf).mono hTaken
  have hAdd : ∀ f, IsFrame (step s i).taken f →
      ∀ f' ∈ frames ++ [f], IsFrame (step s i).taken f' := by
    intro f hf f' hf'
    cases List.mem_append.mp hf' with
    | inl hBefore => exact hOld f' hBefore
    | inr hHere => exact List.mem_singleton.mp hHere ▸ hf
  rw [Complete, hItems]
  generalize openBars s = bars at hWrote hStream
  generalize openBars (step s i) = bars' at hWrote ⊢
  cases hWrote with
  | nothing => exact ⟨frames, hOld, by rw [List.append_nil, hStream]⟩
  | message m hm =>
    refine ⟨frames ++ [[.message m]], hAdd _ (.inl ⟨m, hm, rfl⟩), ?_⟩
    rw [List.map_nil, List.append_nil] at hStream ⊢
    rw [hStream, List.flatten_append, List.flatten_singleton]
  | header t ht =>
    refine ⟨frames ++ [.message (header t) :: t.bars.map .record], hAdd _ (.inr ⟨t, ht, rfl⟩), ?_⟩
    rw [List.map_nil, List.append_nil] at hStream
    rw [hStream, List.flatten_append, List.flatten_singleton, List.append_assoc,
      List.singleton_append]
  | records bars =>
    refine ⟨frames, hOld, ?_⟩
    rw [← hStream, List.append_assoc, List.map_append]

theorem Complete.framed {s : Sender} (h : Complete s) : Framed s := by
  obtain ⟨frames, hFrames, hStream⟩ := h
  exact ⟨frames, hFrames, _, hStream⟩

theorem inv_empty : Inv {} := ⟨rfl, rfl, fun _ _ => Pc.noConfusion⟩

/-- The stream is well framed in exactly the runs that answer no ping while an array is open. -/
theorem framed_iff (inputs : List Step) :
    Framed (run step {} inputs) ↔ Always step StepOk {} inputs := by
  constructor
  · intro hFramed
    have hScan : scanTo (run step {} inputs) ≠ none ↔ _ :=
      run_iff_always Counted (fun s => scanTo s ≠ none) (fun _ i h => counted_step h i)
        (fun _ i h => scanTo_step_iff h i) ⟨inv_empty, .inr rfl⟩ inputs
    exact (hScan.mp hFramed.scanTo_ne_none).2
  · intro hOk
    have hKeep : ∀ s i, Inv s ∧ Complete s → StepOk s i → Inv (step s i) ∧ Complete (step s i) :=
      fun s i h hStep => ⟨inv_step h.1 i, complete_step h hStep⟩
    have hEmpty : Complete {} := ⟨[], fun f hf => absurd hf List.not_mem_nil, rfl⟩
    exact (run_invariant_of_always _ hKeep ⟨inv_empty, hEmpty⟩ hOk).2.framed

/-- Two pending bars: the answer to a ping comes between the header of their array and the
records. -/
theorem pong_in_an_array :
    let bars : List BarData := [⟨1, 1, 1, 1, 60⟩, ⟨2, 2, 2, 2, 120⟩]
    itemsOf (run step {} [.data (.addBars .eurusd 1 bars), .send, .send, .pong, .send]).stream =
        [.message (.barArray .eurusd 1 2), .message .pong, .record ⟨1, 1, 1, 1, 60⟩,
          .record ⟨2, 2, 2, 2, 120⟩] ∧
      ¬Framed (run step {} [.data (.addBars .eurusd 1 bars), .send, .send, .pong, .send]) := by
  have hItems : itemsOf (run step {} [.data (.addBars .eurusd 1
      [⟨1, 1, 1, 1, 60⟩, ⟨2, 2, 2, 2, 120⟩]), .send, .send, .pong, .send]).stream =
        [.message (.barArray .eurusd 1 2), .message .pong, .record ⟨1, 1, 1, 1, 60⟩,
          .record ⟨2, 2, 2, 2, 120⟩] := by decide +kernel
  refine ⟨hItems, ?_⟩
  intro hFramed
  apply hFramed.scanTo_ne_none
  rw [scanTo, hItems]
  rfl

end Fxquant.Gui.Framing
