import Fxquant.Engine.DefaultStrategy
import Fxquant.Library.Runs

/-!
# Submitting orders while ticks arrive

Two threads work on an engine that runs the default strategy. Clients call `submit_order` at any
time; the worker of the data events runs `add_new_orders` and then the strategy for each tick.
The lock makes the first two atomic, and a submission may come between them and the strategy.
-/

namespace Fxquant.Submission

open FxEngine

/-- `worker` is the tick that has been through `add_new_orders` and not through the strategy. -/
structure State where
  engine : FxEngine := {}
  worker : Option TickData := none

inductive Action where
  | submitOrder (optr : Option Order)
  | addNewOrders (tick : TickData)
  | strategyOnTick

/-- One step of either thread; the worker takes its steps in turn. -/
def step (s : State) : Action → State
  | .submitOrder optr => { s with engine := (s.engine.submitOrder optr).1 }
  | .addNewOrders tick =>
    match s.worker with
    | none => ⟨{ s.engine with latestTick := some tick }.addNewOrders, some tick⟩
    | some _ => s
  | .strategyOnTick =>
    match s.worker with
    | some tick => ⟨s.engine.defaultOnTick tick, none⟩
    | none => s

/-- Every accepted order is in one place: it waits among the new orders and has no submitted event
yet, or it is in one of the other lists and has one. -/
structure EachOnce (e : FxEngine) : Prop where
  listed : ∀ p < e.nextPtr, e.listed.count p = 1
  submitted : ∀ p < e.nextPtr, e.submitted p = if p ∈ e.newOrders then 0 else 1

/-- A step leaves every accepted order in one place, and `add_new_orders` transfers all that wait. -/
def HandsOver (s : State) (a : Action) : Prop :=
  EachOnce (step s a).engine ∧
    ∀ tick, a = .addNewOrders tick → s.worker = none → ∀ p < s.engine.nextPtr,
      p ∉ (step s a).engine.newOrders

def NoneWaits (s : State) (a : Action) : Prop :=
  ∀ tick, a = .addNewOrders tick → s.worker = none → s.engine.newOrders = []

structure Allocated (e : FxEngine) : Prop where
  listed : ∀ p ∈ e.listed, p < e.nextPtr
  events : ∀ event ∈ e.orderEvents, event.optr < e.nextPtr

theorem submitted_eq_zero {e : FxEngine} (h : Allocated e) {p : Ptr} (hp : e.nextPtr ≤ p) :
    e.submitted p = 0 := by
  rw [submitted, List.countP_eq_zero]
  intro event hEvent
  have hNe : event.optr ≠ p := (Nat.lt_of_lt_of_le (h.events event hEvent) hp).ne
  simp [hNe]

theorem nodup_listed {e : FxEngine} (h : EachOnce e) (hAllocated : Allocated e) : e.listed.Nodup := by
  rw [List.nodup_iff_count_le_one]
  intro p
  cases Nat.lt_or_ge p e.nextPtr with
  | inl hp =>
    exact (h.listed p hp).le
  | inr hp =>
    have hAbsent : p ∉ e.listed := fun hMem => absurd (hAllocated.listed p hMem) (Nat.not_lt_of_le hp)
    rw [List.count_eq_zero_of_not_mem hAbsent]
    exact Nat.zero_le 1

/-! ### One lemma for each operation -/

theorem allocated_submitOrder {e : FxEngine} (h : Allocated e) (optr : Option Order) :
    Allocated (e.submitOrder optr).1 := by
  cases optr with
  | none => exact h
  | some o =>
    refine ⟨fun p hp => ?_, fun event hEvent => Nat.lt_succ_of_lt (h.events event hEvent)⟩
    change p < e.nextPtr + 1
    simp only [submitOrder, allocate, FxEngine.listed, List.mem_append, List.mem_singleton] at hp
    have hOld := h.listed p
    simp only [FxEngine.listed, List.mem_append] at hOld
    rcases hp with (((hp | hp) | hp) | hp) | hp
    · exact Nat.lt_succ_of_lt (hOld (by simp [hp]))
    · exact hp ▸ Nat.lt_succ_self _
    all_goals exact Nat.lt_succ_of_lt (hOld (by simp [hp]))

theorem eachOnce_submitOrder {e : FxEngine} (h : EachOnce e) (hAllocated : Allocated e)
    (optr : Option Order) : EachOnce (e.submitOrder optr).1 := by
  cases optr with
  | none => exact h
  | some o =>
    have hFresh : e.nextPtr ∉ e.listed := fun hMem => (hAllocated.listed _ hMem).false
    have hCount : ∀ p, ((e.submitOrder (some o)).1.listed).count p =
        e.listed.count p + if e.nextPtr = p then 1 else 0 := by
      intro p
      simp only [submitOrder, allocate, FxEngine.listed, List.count_append, List.count_singleton,
        beq_iff_eq]
      omega
    refine ⟨fun p hp => ?_, fun p hp => ?_⟩
    · rw [hCount]
      rcases Nat.lt_succ_iff_lt_or_eq.mp hp with hp | rfl
      · rw [h.listed p hp, if_neg hp.ne']
      · rw [List.count_eq_zero_of_not_mem hFresh, if_pos rfl]
    · change e.submitted p = if p ∈ e.newOrders ++ [e.nextPtr] then 0 else 1
      rcases Nat.lt_succ_iff_lt_or_eq.mp hp with hp | rfl
      · rw [h.submitted p hp]
        simp [hp.ne]
      · rw [submitted_eq_zero hAllocated le_rfl]
        simp

theorem allocated_addNewOrders {e : FxEngine} (h : Allocated e) : Allocated e.addNewOrders := by
  have hOld : ∀ p, (p ∈ e.newOrders ∨ p ∈ e.pendingOrders ∨ p ∈ e.openedOrders ∨ p ∈ e.closedOrders) →
      p < e.nextPtr := by
    intro p hp
    apply h.listed p
    simp only [FxEngine.listed, List.mem_append]
    tauto
  rw [addNewOrders_eq]
  refine ⟨fun p hp => hOld p ?_, fun event hEvent => ?_⟩
  · simp only [FxEngine.listed, List.mem_append] at hp
    tauto
  · cases List.mem_append.mp hEvent with
    | inl hEvent =>
      exact h.events event hEvent
    | inr hEvent =>
      obtain ⟨p, hp, rfl⟩ := List.mem_map.mp hEvent
      exact hOld p (.inl hp)

/-- The new orders stay where they are; that no order is doubled takes that there are none. -/
theorem newOrders_addNewOrders (e : FxEngine) : e.addNewOrders.newOrders = e.newOrders := by
  rw [addNewOrders_eq]

theorem eachOnce_addNewOrders {e : FxEngine} (h : EachOnce e) (hNone : e.newOrders = []) :
    EachOnce e.addNewOrders := by
  rw [addNewOrders_eq]
  refine ⟨fun p hp => ?_, fun p hp => ?_⟩
  · have hCount := h.listed p hp
    simpa [FxEngine.listed, hNone] using hCount
  · have hEvents := h.submitted p hp
    simpa [FxEngine.submitted, hNone] using hEvents

theorem allocated_defaultOnTick {e : FxEngine} (h : Allocated e) (tick : TickData)
    (hNodup : e.listed.Nodup) : Allocated (e.defaultOnTick tick) := by
  obtain ⟨heap, waiting, staying, closing, events, hEq, hPerm, hEvents⟩ := defaultOnTick_eq tick hNodup
  have hMoved : ∀ p, p ∈ e.pendingOrders ∨ p ∈ e.openedOrders → p < e.nextPtr := by
    intro p hp
    apply h.listed p
    simp only [FxEngine.listed, List.mem_append]
    tauto
  rw [hEq]
  refine ⟨fun p hp => ?_, fun event hEvent => ?_⟩
  · have hSub := hPerm.subset (a := p)
    simp only [FxEngine.listed, List.mem_append] at hp hSub
    have hOld := h.listed p
    simp only [FxEngine.listed, List.mem_append] at hOld
    tauto
  · cases List.mem_append.mp hEvent with
    | inl hEvent =>
      exact h.events event hEvent
    | inr hEvent =>
      exact hMoved _ (List.mem_append.mp (hEvents event hEvent).2)

theorem eachOnce_defaultOnTick {e : FxEngine} (h : EachOnce e) (tick : TickData)
    (hNodup : e.listed.Nodup) : EachOnce (e.defaultOnTick tick) := by
  obtain ⟨heap, waiting, staying, closing, events, hEq, hPerm, hEvents⟩ := defaultOnTick_eq tick hNodup
  rw [hEq]
  refine ⟨fun p hp => ?_, fun p hp => ?_⟩
  · have hCount := h.listed p hp
    have hMoved := hPerm.count_eq p
    simp only [FxEngine.listed, List.count_append] at hCount hMoved ⊢
    omega
  · have hBefore := h.submitted p hp
    rw [← hBefore, FxEngine.submitted, List.countP_append, countP_submitted_eq_zero fun event hEvent =>
      (hEvents event hEvent).1]
    rfl

/-! ### Runs -/

theorem handsOver_iff {s : State} (h : EachOnce s.engine) (hAllocated : Allocated s.engine)
    (a : Action) : HandsOver s a ↔ NoneWaits s a := by
  cases a with
  | submitOrder optr =>
    exact iff_of_true ⟨eachOnce_submitOrder h hAllocated optr, fun _ ha => nomatch ha⟩
      fun _ ha => nomatch ha
  | strategyOnTick =>
    refine iff_of_true ⟨?_, fun _ ha => nomatch ha⟩ fun _ ha => nomatch ha
    cases hWorker : s.worker with
    | none => simpa [step, hWorker] using h
    | some tick => simpa [step, hWorker] using eachOnce_defaultOnTick h tick (nodup_listed h hAllocated)
  | addNewOrders tick =>
    cases hWorker : s.worker with
    | some busy =>
      refine iff_of_true ⟨by simpa [step, hWorker] using h, fun _ _ hIdle => ?_⟩ fun _ _ hIdle => ?_ <;>
        exact nomatch hWorker.symm.trans hIdle
    | none =>
      have hStep : (step s (.addNewOrders tick)).engine =
          { s.engine with latestTick := some tick }.addNewOrders := by simp [step, hWorker]
      constructor
      · rintro ⟨_, hLeft⟩ _ _ _
        rw [List.eq_nil_iff_forall_not_mem]
        intro p hp
        have hLt : p < s.engine.nextPtr := hAllocated.listed p (by simp [FxEngine.listed, hp])
        apply hLeft tick rfl hWorker p hLt
        rw [hStep, newOrders_addNewOrders]
        exact hp
      · intro hNone
        have hEmpty : s.engine.newOrders = [] := hNone tick rfl hWorker
        refine ⟨?_, fun _ _ _ p _ => ?_⟩
        · rw [hStep]
          exact eachOnce_addNewOrders ⟨h.listed, h.submitted⟩ hEmpty
        · rw [hStep, newOrders_addNewOrders]
          simp [hEmpty]

theorem allocated_step {s : State} (h : EachOnce s.engine) (hAllocated : Allocated s.engine)
    (a : Action) : Allocated (step s a).engine := by
  cases a with
  | submitOrder optr => exact allocated_submitOrder hAllocated optr
  | addNewOrders tick =>
    cases hWorker : s.worker with
    | some busy => simpa [step, hWorker] using hAllocated
    | none =>
      simpa [step, hWorker] using
        allocated_addNewOrders (e := { s.engine with latestTick := some tick })
          ⟨hAllocated.listed, hAllocated.events⟩
  | strategyOnTick =>
    cases hWorker : s.worker with
    | none => simpa [step, hWorker] using hAllocated
    | some tick =>
      simpa [step, hWorker] using allocated_defaultOnTick hAllocated tick (nodup_listed h hAllocated)

/-- A run hands every accepted order over once exactly when no tick comes after an order was
accepted: the new orders are never cleared, so the first tick doubles them. -/
theorem run_hands_over_iff (actions : List Action) :
    Runs.Always step HandsOver {} actions ↔ Runs.Always step NoneWaits {} actions := by
  apply Runs.always_iff_always (fun _ => True)
    fun s : State => EachOnce s.engine ∧ Allocated s.engine
  · exact fun _ _ _ => trivial
  · exact fun s a _ h hHands => ⟨hHands.1, allocated_step h.1 h.2 a⟩
  · exact fun s a _ h => handsOver_iff h.1 h.2 a
  · trivial
  · exact ⟨⟨fun _ hp => absurd hp (Nat.not_lt_zero _), fun _ hp => absurd hp (Nat.not_lt_zero _)⟩,
      ⟨fun _ hp => absurd hp (by simp [FxEngine.listed]), fun _ hEvent => nomatch hEvent⟩⟩

/-- After the first tick a submitted order is both new and pending. -/
theorem tick_doubles_the_order :
    ¬ Runs.Always step HandsOver {}
      [.submitOrder (some { type := .buyOrder, id := 1, symbol := .eurusd, volume := 1, orderPrice := 1 }),
        .addNewOrders (quote 1.0000 1.0001 0)] := by
  rintro ⟨_, hSecond, _⟩
  exact absurd (hSecond.1.listed 0 (by decide)) (by decide +kernel)

end Fxquant.Submission
