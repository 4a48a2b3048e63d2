import Fxquant.Gui.SendThread

/-!
# Every bar and every order event is sent once

On a connection that stays up, what has been accepted is on the socket, in the hands of the
thread or pending, in one of the three and once. When the thread sleeps it is all on the socket,
and left to itself the thread gets there.
-/

namespace Fxquant.Gui.Delivery

open Feeder Runs SendThread

/-! ### Accounts -/

section Account

variable {M : Type*} [AddCommMonoid M]

def amountOf (of : Write → M) (writes : List Write) : M := (writes.map of).sum

def sentOf (of : Write → M) (stream : List Sent) : M :=
  amountOf of ((stream.filter Sent.whole).map Sent.write)

def inHand : Pc → List Write
  | .writing _ left => left
  | _ => []

def held (of : Write → M) (pending : Context → M) (s : Sender) : M :=
  sentOf of s.stream + (amountOf of (inHand s.pc) + pending s.ctx)

/-- One kind of data: what a write amounts to, and what is pending of it in a context. -/
structure Account (of : Write → M) (pending : Context → M) : Prop where
  takeBars : ∀ ctx : Context,
    amountOf of (barWrites ctx.takeBars.1) + pending ctx.takeBars.2 = pending ctx
  takeOrders : ∀ ctx : Context,
    amountOf of (ctx.takeOrders.1.map fun info => .message (.order info)) +
      pending ctx.takeOrders.2 = pending ctx
  takeInfo : ∀ ctx : Context, pending ctx.takeInfo.2 = pending ctx
  takeTicks : ∀ ctx : Context, pending ctx.takeTicks.2 = pending ctx
  info : ∀ xml, of (.message (.info xml)) = 0
  tick : ∀ sym tick, of (.message (.tick sym tick)) = 0
  status : of (.message .status) = 0

variable {of : Write → M} {pending : Context → M}

theorem amountOf_eq_zero {writes : List Write} (h : ∀ w ∈ writes, of w = 0) : amountOf of writes = 0 := by
  apply List.sum_eq_zero
  intro m hm
  obtain ⟨w, hw, rfl⟩ := List.mem_map.mp hm
  exact h w hw

theorem sentOf_concat (of : Write → M) (stream : List Sent) (w : Write) :
    sentOf of (stream ++ [⟨w, true⟩]) = sentOf of stream + of w := by
  simp [sentOf, amountOf]

theorem Account.returned (h : Account of pending) {s : Sender} (hHand : amountOf of (inHand s.pc) = 0)
    (result : Bool) (fn : Fn) : held of pending (s.returned result fn) = held of pending s := by
  obtain ⟨pc, initialized, hEq⟩ := s.returned_eq result fn
  have hStatus : amountOf of (inHand (s.returned result fn).pc) = 0 := by
    have hOne : amountOf of [.message .status] = 0 := by simp [amountOf, h.status]
    cases fn with
    | sendOrders barsSent =>
      rcases returned_sendOrders_pc s barsSent result with ⟨_, hPc | hPc⟩ | ⟨_, hEq⟩
      · rw [hPc]
        rfl
      · rw [hPc]
        exact hOne
      · rw [hEq]
        rfl
    | sendBars => rfl
    | sendStatus => rfl
    | sendInfo => rfl
    | sendTicks => rfl
  rw [held, hStatus, held, hHand, hEq]

/-- An action on a connection that is up moves what it takes from one place to the next. -/
theorem Account.act (h : Account of pending) {s : Sender} (hLive : Live s) :
    held of pending (s.act true) = held of pending s := by
  have hMove : ∀ s' : Sender, s'.stream = s.stream →
      amountOf of (inHand s'.pc) + pending s'.ctx = amountOf of (inHand s.pc) + pending s.ctx →
      held of pending s' = held of pending s := by
    intro s' hStream hRest
    rw [held, held, hStream, hRest]
  cases hPc : s.pc with
  | loop =>
    have hTaken := h.takeBars s.ctx
    rcases act_loop hPc true with ⟨hLost, _⟩ | ⟨_, hNone, hEq⟩ | ⟨_, _, hEq⟩
    · exact absurd hLive hLost
    · have hNothing : barWrites s.ctx.takeBars.1 = [] := by rw [barWrites, hNone]
      rw [hNothing] at hTaken
      rw [hEq]
      apply hMove
      · rfl
      · rw [hPc]
        exact hTaken.trans (zero_add _).symm
    · rw [hEq]
      apply hMove
      · rfl
      · rw [hPc]
        exact hTaken.trans (zero_add _).symm
  | takeOrders barsSent =>
    have hTaken := h.takeOrders s.ctx
    rcases act_takeOrders hPc true with ⟨hNone, hEq⟩ | ⟨_, hEq⟩
    · rw [hNone] at hTaken
      rw [hEq, h.returned (by rw [hPc]; rfl)]
      apply hMove
      · rfl
      · rw [hPc]
        exact congrArg _ ((zero_add _).symm.trans hTaken)
    · rw [hEq]
      apply hMove
      · rfl
      · rw [hPc]
        exact hTaken.trans (zero_add _).symm
  | takeInfo =>
    have hTaken := h.takeInfo s.ctx
    rcases act_takeInfo hPc true with hEq | hEq
    · rw [hEq]
      apply hMove
      · rfl
      · rw [hPc]
        exact congrArg _ hTaken
    · have hNothing : amountOf of [.message (.info s.ctx.takeInfo.1)] = 0 := by simp [amountOf, h.info]
      rw [hEq]
      apply hMove
      · rfl
      · rw [hPc]
        exact congrArg₂ _ hNothing hTaken
  | takeTicks =>
    have hNothing : amountOf of (inHand (s.act true).pc) = 0 := by
      rw [act_takeTicks hPc]
      apply amountOf_eq_zero
      intro w hw
      obtain ⟨⟨sym, tick⟩, _, rfl⟩ := List.mem_map.mp hw
      exact h.tick sym tick
    rw [act_takeTicks hPc] at hNothing ⊢
    apply hMove
    · rfl
    · rw [hPc]
      exact congrArg₂ _ hNothing (h.takeTicks s.ctx)
  | writing fn left =>
    cases left with
    | nil =>
      have hEq : s.act true = s.returned true fn := by rw [Sender.act, hPc]
      rw [hEq, h.returned (by rw [hPc]; rfl)]
    | cons w left =>
      have hUp : (s.canceled || s.aborted) ≠ true := by simp [hLive.1, hLive.2]
      have hEq : s.act true =
          { s with stream := s.stream ++ [⟨w, true⟩], pc := .writing fn left } := by
        simp only [Sender.act, hPc, if_neg hUp]
        rfl
      have hHand : amountOf of (inHand s.pc) = of w + amountOf of left := by
        rw [hPc]
        exact List.sum_cons
      rw [hEq, held, held, hHand, sentOf_concat, add_assoc, add_assoc]
      rfl
  | ended =>
    have hEq : s.act true = s := by simp only [Sender.act, hPc]
    rw [hEq]

end Account

/-! ### Bars and order events -/

def barsOf : Write → Multiset BarData
  | .message (.bar _ _ b) => {b}
  | .records bars => ↑bars
  | _ => 0

def ordersOf : Write → Multiset OrderInfo
  | .message (.order o) => {o}
  | _ => 0

theorem amountOf_records (chunks : List (List BarData)) :
    amountOf barsOf (chunks.map .records) = ↑chunks.flatten := by
  induction chunks with
  | nil => rfl
  | cons chunk chunks ih =>
    rw [amountOf] at ih ⊢
    rw [List.map_cons, List.map_cons, List.sum_cons, ih, List.flatten_cons, ← Multiset.coe_add]
    rfl

theorem barWrites_cases {taken : Taken} {w : Write} (h : w ∈ barWrites taken) :
    (∃ sym timeFrame b, w = .message (.bar sym timeFrame b)) ∨
      (∃ sym timeFrame count, w = .message (.barArray sym timeFrame count)) ∨
        ∃ bars, w = .records bars := by
  rw [barWrites] at h
  split at h
  · cases h
  · exact .inl ⟨_, _, _, List.mem_singleton.mp h⟩
  · rcases List.mem_cons.mp h with hHead | hTail
    · exact .inr (.inl ⟨_, _, _, hHead⟩)
    · obtain ⟨bars, _, rfl⟩ := List.mem_map.mp hTail
      exact .inr (.inr ⟨bars, rfl⟩)

theorem amountOf_barWrites (taken : Taken) : amountOf barsOf (barWrites taken) = ↑taken.bars := by
  obtain ⟨sym, timeFrame, bars⟩ := taken
  rw [barWrites]
  cases bars with
  | nil => rfl
  | cons first rest =>
    cases rest with
    | nil => exact add_zero _
    | cons second rest =>
      have hChunks := amountOf_records (chunks (first :: second :: rest).length (first :: second :: rest))
      rw [flatten_chunks le_rfl] at hChunks
      exact (zero_add _).trans hChunks

theorem barAccount : Account barsOf Context.allBars where
  takeBars ctx := by rw [amountOf_barWrites, ctx.allBars_takeBars]
  takeOrders ctx := by
    have hNothing : amountOf barsOf (ctx.takeOrders.1.map fun info => .message (.order info)) = 0 := by
      apply amountOf_eq_zero
      intro w hw
      obtain ⟨info, _, rfl⟩ := List.mem_map.mp hw
      rfl
    rw [hNothing, zero_add]
    exact ctx.takeFirst_sumOf fun _ _ => rfl
  takeInfo ctx := ctx.takeFirst_sumOf fun _ _ => rfl
  takeTicks ctx := ctx.takeTicks_sumOf fun _ _ => rfl
  info _ := rfl
  tick _ _ := rfl
  status := rfl

theorem amountOf_orders (orders : List OrderInfo) :
    amountOf ordersOf (orders.map fun info => .message (.order info)) = ↑orders := by
  induction orders with
  | nil => rfl
  | cons info orders ih =>
    rw [amountOf] at ih ⊢
    rw [List.map_cons, List.map_cons, List.sum_cons, ih, ← Multiset.cons_coe, ← Multiset.singleton_add]
    rfl

theorem orderAccount : Account ordersOf Context.allOrders where
  takeBars ctx := by
    have hNothing : amountOf ordersOf (barWrites ctx.takeBars.1) = 0 := by
      apply amountOf_eq_zero
      intro w hw
      obtain ⟨sym, timeFrame, b, rfl⟩ | ⟨sym, timeFrame, n, rfl⟩ | ⟨bars, rfl⟩ := barWrites_cases hw
      · rfl
      · rfl
      · rfl
    rw [hNothing, zero_add]
    exact ctx.takeBars_sumOf fun _ _ => rfl
  takeOrders ctx := by rw [amountOf_orders, ctx.allOrders_takeOrders]
  takeInfo ctx := ctx.takeFirst_sumOf fun _ _ => rfl
  takeTicks ctx := ctx.takeTicks_sumOf fun _ _ => rfl
  info _ := rfl
  tick _ _ := rfl
  status := rfl

/-! ### Runs -/

/-- All writes succeed, and nobody gives up the connection. -/
def Fine : Action → Prop
  | .send success => success = true
  | .cancel => False
  | .abort => False
  | _ => True

section Account

variable {M : Type*} [AddCommMonoid M] {of : Write → M} {pending : Context → M}

/-- What a step adds to the data of the context: nothing where somebody else holds its lock. -/
def accepted (amount : Context → Published → M) (s : SendThread.State) : Action → M
  | .publish p => if s.raising then 0 else amount s.sender.ctx p
  | _ => 0

theorem live_act_true {s : Sender} (h : Live s) : Live (s.act true) := by
  refine ⟨(act_canceled s true).trans h.1, ?_⟩
  cases hNext : s.nextWrite with
  | none => exact (Sender.act_of_none hNext true).2.trans h.2
  | some next =>
    obtain ⟨fn, w, left⟩ := next
    rw [(Sender.act_of_some hNext true).2]
    exact h.2

theorem live_step {s : SendThread.State} (h : Live s.sender) {a : Action} (hFine : Fine a) :
    Live (step s a).sender := by
  cases a with
  | publish p =>
    rw [step]
    split
    · exact h
    · exact h
  | raise =>
    rw [step]
    split
    · exact h
    · exact h
  | send success =>
    obtain rfl : success = true := hFine
    rw [step, State.threadFunc]
    split
    · split
      · exact h
      · exact live_act_true h
    · split
      · exact h
      · exact h
    · exact h
  | wake => exact h
  | timeOut => exact h
  | cancel => exact absurd hFine id
  | ring =>
    rw [step]
    split
    · exact h
    · exact h
  | abort => exact absurd hFine id

theorem Account.held_step (h : Account of pending) {amount : Context → Published → M}
    (hAdd : ∀ ctx p, pending (ctx.add p.data) = pending ctx + amount ctx p) {s : SendThread.State}
    (hLive : Live s.sender) {a : Action} (hFine : Fine a) :
    held of pending (step s a).sender = held of pending s.sender + accepted amount s a := by
  cases a with
  | publish p =>
    rw [step, accepted]
    split
    · exact (add_zero _).symm
    · rw [held, hAdd, held, ← add_assoc, ← add_assoc, ← add_assoc]
  | raise =>
    rw [step]
    split
    · exact (add_zero _).symm
    · exact (add_zero _).symm
  | send success =>
    obtain rfl : success = true := hFine
    change held of pending (s.threadFunc true).sender = held of pending s.sender + 0
    rw [add_zero, State.threadFunc]
    split
    · split
      · rfl
      · exact h.act hLive
    · rw [if_neg (by simp [hLive.1, hLive.2])]
    · rfl
  | wake => exact (add_zero _).symm
  | timeOut => exact (add_zero _).symm
  | cancel => exact absurd hFine id
  | ring =>
    rw [step]
    split
    · exact (add_zero _).symm
    · exact (add_zero _).symm
  | abort => exact absurd hFine id

/-- What was there and what has been accepted since is sent, in hand or pending. -/
theorem Account.held_run (h : Account of pending) {amount : Context → Published → M}
    (hAdd : ∀ ctx p, pending (ctx.add p.data) = pending ctx + amount ctx p) {s : SendThread.State}
    (hLive : Live s.sender) {actions : List Action} (hFine : ∀ a ∈ actions, Fine a) :
    held of pending (run step s actions).sender =
      held of pending s.sender + total step (accepted amount) s actions :=
  run_balance (fun s : SendThread.State => Live s.sender) (fun s => held of pending s.sender) _ hLive
    fun _ hUp a ha => ⟨live_step hUp (hFine a ha), h.held_step hAdd hUp (hFine a ha)⟩

end Account

def barsIn (ctx : Context) : Published → Multiset BarData
  | .bar sym timeFrame b => if (ctx.addBar sym timeFrame b).2 then {b} else 0
  | _ => 0

def ordersIn (_ : Context) : Published → Multiset OrderInfo
  | .order o => {o}
  | _ => 0

theorem allBars_add (ctx : Context) (p : Published) :
    (ctx.add p.data).allBars = ctx.allBars + barsIn ctx p := by
  cases p with
  | bar sym timeFrame b => exact ctx.allBars_addBar sym timeFrame b
  | tick sym t => exact (ctx.allBars_addTick sym t).trans (add_zero _).symm
  | order o =>
    exact (ctx.allBars_update (f := fun st => { st with orders := st.orders ++ [o] })
      (fun _ => rfl) o.order.symbol).trans (add_zero _).symm
  | info sym xml =>
    exact (ctx.allBars_update (f := fun st => { st with info := xml }) (fun _ => rfl) sym).trans
      (add_zero _).symm

theorem allOrders_add (ctx : Context) (p : Published) :
    (ctx.add p.data).allOrders = ctx.allOrders + ordersIn ctx p := by
  have hNone : ∀ (sym : Symbol) (f : Gui.State → Gui.State), (∀ st, (f st).orders = st.orders) →
      (ctx.update sym f).allOrders = ctx.allOrders + 0 := fun sym f hOrders =>
    ctx.allOrders_update [] (by simpa using hOrders) sym
  cases p with
  | bar sym timeFrame b =>
    change (ctx.addBar sym timeFrame b).1.allOrders = _
    rw [Context.addBar]
    split
    · exact hNone sym _ fun _ => rfl
    · exact (add_zero _).symm
  | tick sym t =>
    change (ctx.addTick sym t).1.allOrders = _
    rw [Context.addTick]
    split
    · exact hNone sym _ fun _ => rfl
    · exact (add_zero _).symm
  | order o => exact ctx.allOrders_update [o] (fun _ => rfl) o.order.symbol
  | info sym xml => exact hNone sym _ fun _ => rfl

theorem allBars_eq_zero {ctx : Context} (h : ∀ sym timeFrame, ctx.pendingBars sym timeFrame = []) :
    ctx.allBars = 0 := by
  apply OrderedMap.sumOf_eq_zero
  intro sym st hState
  apply OrderedMap.sumOf_eq_zero
  intro timeFrame v hBars
  have hNone := h sym timeFrame
  rw [Context.pendingBars, Context.state, hState, Option.getD_some, hBars, Option.getD_some] at hNone
  rw [hNone]
  rfl

theorem allOrders_eq_zero {ctx : Context} (h : ∀ sym, (ctx.state sym).orders = []) :
    ctx.allOrders = 0 := by
  apply OrderedMap.sumOf_eq_zero
  intro sym st hState
  have hNone := h sym
  rw [Context.state, hState, Option.getD_some] at hNone
  rw [hNone]
  rfl

/-- A thread in its wait has nothing in hand, so what has been sent is what is not pending. -/
theorem Account.sent_eq {M : Type*} [AddCommMonoid M] {of : Write → M} {pending : Context → M}
    (h : Account of pending) {amount : Context → Published → M}
    (hAdd : ∀ ctx p, pending (ctx.add p.data) = pending ctx + amount ctx p) {ctx : Context}
    {signaled raising : Bool} {actions : List Action} (hFine : ∀ a ∈ actions, Fine a)
    (hLoop : (run step (start ctx signaled raising) actions).sender.pc = .loop)
    (hNone : pending (run step (start ctx signaled raising) actions).sender.ctx = 0) :
    sentOf of (run step (start ctx signaled raising) actions).sender.stream =
      pending ctx + total step (accepted amount) (start ctx signaled raising) actions := by
  have hRun := h.held_run hAdd (s := start ctx signaled raising) ⟨rfl, rfl⟩ hFine
  have hHand : amountOf of (inHand (.loop : Pc)) = 0 := rfl
  have hStart : held of pending (start ctx signaled raising).sender = pending ctx :=
    (zero_add _).trans (zero_add _)
  rwa [held, hLoop, hNone, hHand, add_zero, add_zero, hStart] at hRun

theorem stepOk_of_fine {s : SendThread.State} {a : Action} (hFine : Fine a) : StepOk s a := by
  cases a with
  | send success =>
    obtain rfl : success = true := hFine
    trivial
  | publish p => trivial
  | raise => trivial
  | wake => trivial
  | timeOut => trivial
  | cancel => trivial
  | ring => trivial
  | abort => trivial

theorem always_of_fine {s : SendThread.State} {actions : List Action} (hFine : ∀ a ∈ actions, Fine a) :
    Always step StepOk s actions :=
  always_of_invariant (fun _ => True) trivial fun _ _ a ha => ⟨stepOk_of_fine (hFine a ha), trivial⟩

theorem live_run {s : SendThread.State} (h : Live s.sender) {actions : List Action}
    (hFine : ∀ a ∈ actions, Fine a) : Live (run step s actions).sender :=
  run_invariant_of_mem (fun s : SendThread.State => Live s.sender) h
    fun _ hLive a ha => live_step hLive (hFine a ha)

/-- A thread that sleeps while nobody has still to signal has no bars and no order events, neither in
hand nor pending. -/
theorem asleep_holds_nothing {ctx : Context} {signaled raising : Bool} {actions : List Action}
    (hFine : ∀ a ∈ actions, Fine a)
    (hBlocked : (run step (start ctx signaled raising) actions).event.waiter = .blocked true)
    (hFree : (run step (start ctx signaled raising) actions).raising = false) :
    (run step (start ctx signaled raising) actions).sender.pc = .loop ∧
      (run step (start ctx signaled raising) actions).sender.ctx.allBars = 0 ∧
      (run step (start ctx signaled raising) actions).sender.ctx.allOrders = 0 := by
  have h := inv_run ctx signaled raising (always_of_fine hFine)
  have hLive := live_run (s := start ctx signaled raising) ⟨rfl, rfl⟩ hFine
  obtain ⟨hBars, hOrders, _⟩ := h.nothing_pending hBlocked hFree hLive
  exact ⟨h.atLoop (by simp [h.waiting (by simp [hBlocked])]), allBars_eq_zero hBars,
    allOrders_eq_zero hOrders⟩

/-- In every run in which the connection stays up, however the calls of the server and the thread
interleave: when the thread sleeps and nobody has still to signal, the bars on the socket are
those that were pending when it began and those accepted since, each of them once, and so are
the order events. -/
theorem delivered_once (ctx : Context) (signaled raising : Bool) (actions : List Action)
    (hFine : ∀ a ∈ actions, Fine a) :
    let s := run step (start ctx signaled raising) actions
    s.event.waiter = .blocked true → s.raising = false →
      sentOf barsOf s.sender.stream = ctx.allBars +
          total step (accepted barsIn) (start ctx signaled raising) actions ∧
        sentOf ordersOf s.sender.stream = ctx.allOrders +
          total step (accepted ordersIn) (start ctx signaled raising) actions := by
  intro s hBlocked hFree
  obtain ⟨hLoop, hBars, hOrders⟩ := asleep_holds_nothing hFine hBlocked hFree
  exact ⟨barAccount.sent_eq allBars_add hFine hLoop hBars,
    orderAccount.sent_eq allOrders_add hFine hLoop hOrders⟩

/-- A bar is passed on and sent, then the status, and a round later the thread sleeps. -/
def oneBar : List Action :=
  [.publish (.bar .eurusd 60 ⟨1, 1, 1, 1, 60⟩), .raise] ++ List.replicate 20 (.send true)

theorem bar_delivered_once :
    let s := run step (start {} false false) oneBar
    sentOf barsOf s.sender.stream = Context.allBars {} +
        total step (accepted barsIn) (start {} false false) oneBar ∧
      sentOf ordersOf s.sender.stream = Context.allOrders {} +
        total step (accepted ordersIn) (start {} false false) oneBar :=
  delivered_once {} false false oneBar (by simp [oneBar, List.replicate, Fine])
    (by decide +kernel) (by decide +kernel)

end Fxquant.Gui.Delivery
