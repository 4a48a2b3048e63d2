import Fxquant.Common.RawOrder

/-!
# The calls on an order

What any sequence of calls does to an order that its constructor has accepted. A call that fails
changes nothing; of the others, two set a price that was undefined, and the setters keep the
levels on their sides of the order price, whatever double they are given.
-/

namespace Fxquant.RawOrder

open Doubles Lifecycle

/-! ### Levels -/

/-- A level that is not set, or is below the order price. -/
def LevelBelow (o : RawOrder) (level : Double) : Prop :=
  level = undefinedValue ∨ o.orderPrice.le level = false

def LevelAbove (o : RawOrder) (level : Double) : Prop :=
  level = undefinedValue ∨ level.le o.orderPrice = false

/-- The side of the order price that a stop loss belongs on. -/
def LossSide (o : RawOrder) (level : Double) : Prop :=
  if o.type.isBuy then o.LevelBelow level else o.LevelAbove level

def ProfitSide (o : RawOrder) (level : Double) : Prop :=
  if o.type.isBuy then o.LevelAbove level else o.LevelBelow level

theorem isValid_iff (o : RawOrder) :
    o.isValid = true ↔ (o.orderPrice ≠ undefinedValue ∧ o.orderPrice.le (.fin 0) = false ∧
      o.volume.lt (.fin (1 / 100)) = false) ∧ o.LossSide o.stopLoss ∧ o.ProfitSide o.takeProfit := by
  rw [isValid, LossSide, ProfitSide]
  cases o.type.isBuy <;>
    simp [hasStopLoss, hasTakeProfit, LevelBelow, LevelAbove, and_assoc]

theorem isValid_withStopLoss {o : RawOrder} {level : Double} (h : o.isValid = true)
    (hLevel : o.LossSide level) : isValid { o with stopLoss := level } = true := by
  obtain ⟨hTerms, _, hProfit⟩ := (isValid_iff o).mp h
  exact (isValid_iff _).mpr ⟨hTerms, hLevel, hProfit⟩

theorem isValid_withTakeProfit {o : RawOrder} {level : Double} (h : o.isValid = true)
    (hLevel : o.ProfitSide level) : isValid { o with takeProfit := level } = true := by
  obtain ⟨hTerms, hLoss, _⟩ := (isValid_iff o).mp h
  exact (isValid_iff _).mpr ⟨hTerms, hLoss, hLevel⟩

/-- A level that is not set is on both sides. -/
theorem side_undefined (o : RawOrder) :
    o.LossSide undefinedValue ∧ o.ProfitSide undefinedValue := by
  rw [LossSide, ProfitSide]
  split
  · exact ⟨.inl rfl, .inl rfl⟩
  · exact ⟨.inl rfl, .inl rfl⟩

theorem levelBelow_of_lt {o : RawOrder} {value : Double}
    (h : (decide (value = undefinedValue) || value.lt o.orderPrice) = true) : o.LevelBelow value := by
  rw [Bool.or_eq_true, decide_eq_true_eq] at h
  exact h.imp_right Double.not_le_of_lt

theorem levelAbove_of_lt {o : RawOrder} {value : Double}
    (h : (decide (value = undefinedValue) || o.orderPrice.lt value) = true) : o.LevelAbove value := by
  rw [Bool.or_eq_true, decide_eq_true_eq] at h
  exact h.imp_right Double.not_le_of_lt

/-- An overridden setter asks for the side first, and the setter of the base for the sign. -/
theorem set_cases {side positive : Bool} {P : Prop} (hSide : side = true → P) (o o' : RawOrder) :
    (if side then if positive then (o', true) else (o, false) else (o, false)) = (o, false) ∨
      (if side then if positive then (o', true) else (o, false) else (o, false)) = (o', true) ∧
        P := by
  cases side with
  | false => exact .inl rfl
  | true =>
    cases positive with
    | false => exact .inl rfl
    | true => exact .inr ⟨rfl, hSide rfl⟩

/-- Whatever is passed to it, a setter refuses it or sets a level on its side of the order price. -/
theorem setStopLoss_spec (o : RawOrder) (value : Double) :
    o.setStopLoss value = (o, false) ∨
      o.setStopLoss value = ({ o with stopLoss := value }, true) ∧ o.LossSide value := by
  rw [setStopLoss, baseSetStopLoss, LossSide]
  split
  · exact set_cases levelBelow_of_lt o _
  · exact set_cases levelAbove_of_lt o _

theorem setTakeProfit_spec (o : RawOrder) (value : Double) :
    o.setTakeProfit value = (o, false) ∨
      o.setTakeProfit value = ({ o with takeProfit := value }, true) ∧ o.ProfitSide value := by
  rw [setTakeProfit, baseSetTakeProfit, ProfitSide]
  split
  · exact set_cases levelAbove_of_lt o _
  · exact set_cases levelBelow_of_lt o _

/-! ### What a call can do -/

theorem not_isOpened_of_checkOpen {o : RawOrder} {tick : TickData} (h : o.checkOpen tick = true) :
    o.isOpened = false := by
  rw [checkOpen] at h
  split at h
  · simpa using h
  · simpa using h
  · exact Bool.not_eq_true' _ ▸ (Bool.and_eq_true_iff.mp h).1
  · exact Bool.not_eq_true' _ ▸ (Bool.and_eq_true_iff.mp h).1
  · exact Bool.not_eq_true' _ ▸ (Bool.and_eq_true_iff.mp h).1
  · exact Bool.not_eq_true' _ ▸ (Bool.and_eq_true_iff.mp h).1

/-- The calls that do not open or close. -/
def Call.isLevel : Call → Bool
  | .openAt _ | .closeAt _ => false
  | _ => true

/-- What a call has begun or ended when it succeeds. -/
def Call.mark : Call → List (Mark Unit)
  | .openAt _ => [.begun ()]
  | .closeAt _ => [.ended ()]
  | _ => []

theorem Call.mark_of_isLevel {c : Call} (h : c.isLevel = true) : c.mark = [] := by
  cases c with
  | openAt tick => simp [isLevel] at h
  | closeAt tick => simp [isLevel] at h
  | setStopLoss value => rfl
  | setTakeProfit value => rfl
  | resetStopLoss => rfl
  | resetTakeProfit => rfl

/-- A call fails and changes nothing, opens an order, closes an open one, or gives it levels that
are valid if the present ones are. -/
theorem call_spec (o : RawOrder) (c : Call) :
    o.call c = (o, false) ∨
      (∃ tick price, c = .openAt tick ∧ o.isOpened = false ∧ o.call c =
        ({ o with openPrice := .fin price, openTime := tick.time, openTick := some tick }, true)) ∨
      (∃ tick price, c = .closeAt tick ∧ o.isOpened = true ∧ o.isClosed = false ∧ o.call c =
        ({ o with closePrice := .fin price, closeTime := tick.time, closeTick := some tick }, true)) ∨
      ∃ stopLoss takeProfit, c.isLevel = true ∧
        o.call c = ({ o with stopLoss := stopLoss, takeProfit := takeProfit }, true) ∧
        (o.isValid = true →
          isValid { o with stopLoss := stopLoss, takeProfit := takeProfit } = true) := by
  cases c with
  | openAt tick =>
    change o.openAt tick = _ ∨ _
    by_cases hReady : o.checkOpen tick = true
    · exact .inr (.inl ⟨tick, _, rfl, not_isOpened_of_checkOpen hReady, if_pos hReady⟩)
    · exact .inl (if_neg hReady)
  | closeAt tick =>
    change o.closeAt tick = _ ∨ _
    by_cases hOpen : (o.isOpened && !o.isClosed) = true
    · obtain ⟨hOpened, hClosed⟩ := Bool.and_eq_true_iff.mp hOpen
      exact .inr (.inr (.inl ⟨tick, _, rfl, hOpened, by simpa using hClosed, if_pos hOpen⟩))
    · exact .inl (if_neg hOpen)
  | setStopLoss value =>
    rcases o.setStopLoss_spec value with hFails | ⟨hSets, hLevel⟩
    · exact .inl hFails
    · exact .inr (.inr (.inr ⟨value, o.takeProfit, rfl, hSets,
        fun h => isValid_withStopLoss h hLevel⟩))
  | setTakeProfit value =>
    rcases o.setTakeProfit_spec value with hFails | ⟨hSets, hLevel⟩
    · exact .inl hFails
    · exact .inr (.inr (.inr ⟨o.stopLoss, value, rfl, hSets,
        fun h => isValid_withTakeProfit h hLevel⟩))
  | resetStopLoss =>
    exact .inr (.inr (.inr ⟨undefinedValue, o.takeProfit, rfl, rfl,
      fun h => isValid_withStopLoss h o.side_undefined.1⟩))
  | resetTakeProfit =>
    exact .inr (.inr (.inr ⟨o.stopLoss, undefinedValue, rfl, rfl,
      fun h => isValid_withTakeProfit h o.side_undefined.2⟩))

/-! ### Runs of calls -/

/-- An order that one of the public constructors has returned. -/
def Accepted (o : RawOrder) : Prop :=
  (∃ type symbol volume orderPrice stopLoss takeProfit id,
    ofPrices type symbol volume orderPrice stopLoss takeProfit id = some o) ∨
  ∃ type symbol volume orderPrice stopLoss takeProfit id,
    ofPoints type symbol volume orderPrice stopLoss takeProfit id = some o

theorem ofPrices_eq_some {type : OrderType} {symbol : Symbol}
    {volume orderPrice stopLoss takeProfit : Double} {id : ℕ} {o : RawOrder}
    (h : ofPrices type symbol volume orderPrice stopLoss takeProfit id = some o) :
    o = { type, id, symbol, volume, orderPrice, stopLoss, takeProfit } ∧ o.isValid = true := by
  simp only [ofPrices, Option.ite_none_right_eq_some, Option.some.injEq] at h
  obtain ⟨hValid, rfl⟩ := h
  exact ⟨rfl, hValid⟩

theorem isOpened_of_undefined {o : RawOrder} (h : o.openPrice = undefinedValue) :
    o.isOpened = false := by
  simp [isOpened, h]

theorem isClosed_of_undefined {o : RawOrder} (h : o.closePrice = undefinedValue) :
    o.isClosed = false := by
  simp [isClosed, h]

theorem Accepted.initial {o : RawOrder} (h : Accepted o) :
    o.isValid = true ∧ o.isOpened = false ∧ o.isClosed = false := by
  have hPrices : ∀ {type symbol volume orderPrice stopLoss takeProfit id},
      ofPrices type symbol volume orderPrice stopLoss takeProfit id = some o →
      o.isValid = true ∧ o.isOpened = false ∧ o.isClosed = false := by
    intro type symbol volume orderPrice stopLoss takeProfit id h
    obtain ⟨rfl, hValid⟩ := ofPrices_eq_some h
    exact ⟨hValid, isOpened_of_undefined rfl, isClosed_of_undefined rfl⟩
  rcases h with ⟨type, symbol, volume, orderPrice, stopLoss, takeProfit, id, h⟩ |
    ⟨type, symbol, volume, orderPrice, stopLoss, takeProfit, id, h⟩
  · exact hPrices h
  · rw [ofPoints] at h
    split at h
    · exact hPrices h
    · exact hPrices h

/-- A call on an order with the log of the calls that have opened and closed it. -/
def loggedStep (st : RawOrder × List (Mark Unit)) (c : Call) : RawOrder × List (Mark Unit) :=
  (st.1.step c, st.2 ++ if (st.1.call c).2 then c.mark else [])

def log (o : RawOrder) (calls : List Call) : List (Mark Unit) := (Runs.run loggedStep (o, []) calls).2

/-- What the prices of an order say about its log. -/
structure Sound (st : RawOrder × List (Mark Unit)) : Prop where
  valid : st.1.isValid = true
  ordered : Ordered st.2
  begins : begins st.2 () = if st.1.isOpened then 1 else 0
  ends : ends st.2 () = if st.1.isClosed then 1 else 0

theorem Accepted.sound {o : RawOrder} (h : Accepted o) : Sound (o, []) := by
  obtain ⟨hValid, hOpened, hClosed⟩ := h.initial
  refine ⟨hValid, ordered_nil, ?_, ?_⟩
  · rw [hOpened]
    rfl
  · rw [hClosed]
    rfl

theorem Sound.isOpened {st : RawOrder × List (Mark Unit)} (h : Sound st)
    (hClosed : st.1.isClosed = true) : st.1.isOpened = true := by
  have hEnds := h.ends
  rw [hClosed, if_pos rfl] at hEnds
  have hBegins := h.begins
  obtain ⟨hLe, _⟩ := h.ordered st.2 List.prefix_rfl ()
  by_contra hOpened
  rw [if_neg hOpened] at hBegins
  omega

theorem loggedStep_eq {o o' : RawOrder} {c : Call} {b : Bool} (log : List (Mark Unit))
    (h : o.call c = (o', b)) : loggedStep (o, log) c = (o', log ++ if b then c.mark else []) := by
  simp only [loggedStep, step, h]

theorem Sound.step {st : RawOrder × List (Mark Unit)} (h : Sound st) (c : Call) :
    Sound (loggedStep st c) := by
  obtain ⟨o, log⟩ := st
  rcases o.call_spec c with hFails | ⟨tick, price, rfl, hOpened, hCall⟩ |
    ⟨tick, price, rfl, hOpened, hClosed, hCall⟩ | ⟨stopLoss, takeProfit, hLevel, hCall, hValid⟩
  · rw [loggedStep_eq log hFails]
    simpa using h
  · rw [loggedStep_eq log hCall, if_pos rfl]
    have hBegins : Lifecycle.begins log () = 0 := by rw [h.begins, hOpened]; rfl
    refine ⟨h.valid, h.ordered.begun hBegins, ?_, ?_⟩
    · rw [Call.mark, begins_concat, hBegins]
      rfl
    · rw [Call.mark, ends_concat, h.ends]
      rfl
  · rw [loggedStep_eq log hCall, if_pos rfl]
    have hBegins : Lifecycle.begins log () = 1 := by rw [h.begins, hOpened]; rfl
    have hEnds : Lifecycle.ends log () = 0 := by rw [h.ends, hClosed]; rfl
    have hLt : Lifecycle.ends log () < Lifecycle.begins log () := by omega
    refine ⟨h.valid, h.ordered.ended hLt, ?_, ?_⟩
    · rw [Call.mark, begins_concat, h.begins]
      rfl
    · rw [Call.mark, ends_concat, hEnds]
      rfl
  · rw [loggedStep_eq log hCall, if_pos rfl, Call.mark_of_isLevel hLevel, List.append_nil]
    exact ⟨hValid h.valid, h.ordered, h.begins, h.ends⟩

theorem sound_run {o : RawOrder} (h : Accepted o) (calls : List Call) :
    Sound (Runs.run step o calls, log o calls) := by
  have hRun := Runs.run_invariant Sound (fun st c hSound => hSound.step c) h.sound calls
  have hOrder : (Runs.run loggedStep (o, []) calls).1 = Runs.run step o calls :=
    Runs.run_fst (fun st c => st.2 ++ if (st.1.call c).2 then c.mark else []) o [] calls
  rw [← hOrder]
  exact hRun

/-! ### Prices that stay -/

theorem openPrice_step {o : RawOrder} (h : o.isOpened = true) (c : Call) :
    (o.step c).openPrice = o.openPrice := by
  rw [step]
  rcases o.call_spec c with hFails | ⟨tick, price, _, hOpened, _⟩ |
    ⟨tick, price, _, _, _, hCall⟩ | ⟨stopLoss, takeProfit, _, hCall, _⟩
  · rw [hFails]
  · rw [h] at hOpened
    contradiction
  · rw [hCall]
  · rw [hCall]

theorem closePrice_step {o : RawOrder} (h : o.isClosed = true) (c : Call) :
    (o.step c).closePrice = o.closePrice := by
  rw [step]
  rcases o.call_spec c with hFails | ⟨tick, price, _, _, hCall⟩ |
    ⟨tick, price, _, _, hClosed, _⟩ | ⟨stopLoss, takeProfit, _, hCall, _⟩
  · rw [hFails]
  · rw [hCall]
  · rw [h] at hClosed
    contradiction
  · rw [hCall]

theorem openPrice_run {o : RawOrder} (h : o.isOpened = true) (calls : List Call) :
    (Runs.run step o calls).openPrice = o.openPrice := by
  refine Runs.run_invariant (fun s : RawOrder => s.openPrice = o.openPrice) (fun s c hs => ?_)
    rfl calls
  have hOpened : s.isOpened = true := by rw [isOpened, hs]; exact h
  rw [openPrice_step hOpened, hs]

theorem closePrice_run {o : RawOrder} (h : o.isClosed = true) (calls : List Call) :
    (Runs.run step o calls).closePrice = o.closePrice := by
  refine Runs.run_invariant (fun s : RawOrder => s.closePrice = o.closePrice) (fun s c hs => ?_)
    rfl calls
  have hClosed : s.isClosed = true := by rw [isClosed, hs]; exact h
  rw [closePrice_step hClosed, hs]

theorem call_fails {o : RawOrder} {c : Call} (h : (o.call c).2 = false) : (o.call c).1 = o := by
  rcases o.call_spec c with hFails | ⟨tick, price, _, _, hCall⟩ |
    ⟨tick, price, _, _, _, hCall⟩ | ⟨stopLoss, takeProfit, _, hCall, _⟩
  · rw [hFails]
  · rw [hCall] at h
    contradiction
  · rw [hCall] at h
    contradiction
  · rw [hCall] at h
    contradiction

theorem closeAt_of_checkClose {o : RawOrder} {tick : TickData} (h : o.checkClose tick = true) :
    (o.closeAt tick).2 = true := by
  rw [checkClose, Bool.and_eq_true] at h
  rw [closeAt, if_pos h.1]

/-- What a run of calls leaves of an order, and what the next call can do to it. -/
structure KeepsOrder (o : RawOrder) (calls : List Call) : Prop where
  valid : (Runs.run step o calls).isValid = true
  opensOnce : begins (log o calls) () ≤ 1
  closesOnce : ends (log o calls) () ≤ 1
  closesOpened : ∀ before later, log o calls = before ++ .ended () :: later → .begun () ∈ before
  openPrice : ∀ before later, calls = before ++ later → (Runs.run step o before).isOpened = true →
    (Runs.run step o calls).openPrice = (Runs.run step o before).openPrice
  closePrice : ∀ before later, calls = before ++ later → (Runs.run step o before).isClosed = true →
    (Runs.run step o calls).closePrice = (Runs.run step o before).closePrice
  fails : ∀ c, ((Runs.run step o calls).call c).2 = false →
    ((Runs.run step o calls).call c).1 = Runs.run step o calls
  closes : ∀ tick, (Runs.run step o calls).checkClose tick = true →
    ((Runs.run step o calls).closeAt tick).2 = true

/-- Whatever is called on an order that its constructor has accepted, it stays valid, opens at most
once, closes at most once after that, and keeps the prices it has got. -/
theorem calls_keep_order {o : RawOrder} (h : Accepted o) (calls : List Call) :
    KeepsOrder o calls := by
  have hSound := sound_run h calls
  constructor
  · exact hSound.valid
  · exact (hSound.ordered _ List.prefix_rfl ()).2
  · exact hSound.ordered.ends_le_one ()
  · intro before later hLog
    exact hSound.ordered.begun_of_ended hLog
  · rintro before later rfl hOpened
    rw [Runs.run_append]
    exact openPrice_run hOpened later
  · rintro before later rfl hClosed
    rw [Runs.run_append]
    exact closePrice_run hClosed later
  · intro c hFails
    exact call_fails hFails
  · intro tick hClose
    exact closeAt_of_checkClose hClose

/-- A stop order above the market. -/
def stopAtTwo : RawOrder where
  type := .buyStopOrder
  id := 1
  symbol := .eurusd
  volume := .fin 1
  orderPrice := .fin 2
  stopLoss := .fin 1
  takeProfit := undefinedValue

/-- Refused as long as the market is below, and a level that is not a number is refused as well. -/
theorem stopAtTwo_kept :
    KeepsOrder stopAtTwo [.openAt ⟨1, 1, 0⟩, .setStopLoss .nan, .openAt ⟨2, 3, 1⟩,
      .setTakeProfit (.fin 4), .closeAt ⟨4, 5, 2⟩, .closeAt ⟨5, 6, 3⟩] :=
  calls_keep_order
    (.inl ⟨.buyStopOrder, .eurusd, .fin 1, .fin 2, .fin 1, undefinedValue, 1, by decide +kernel⟩) _

end Fxquant.RawOrder
