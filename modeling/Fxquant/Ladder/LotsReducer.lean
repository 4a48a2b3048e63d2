import Fxquant.Ladder.Steps
import Fxquant.Library.StableSort
import Mathlib.Order.WithBot

/-!
# The profitable lots reducer

`plr_close` closes the biggest winner together with the biggest loser of the other direction that
it can pay for. `computed_profit` is in points times lots; the first test takes `plr` in the same
unit and the second one in prices, so a pair that earns next to nothing passes. Profits, and what
the tests compare, are doubles.
-/

namespace Fxquant.Ladder

open StableSort Doubles

namespace State

/-- The profit that the custom data of the order has, if it has any. -/
def computedProfit (s : State) (optr : Ptr) : Option ℚ :=
  (s.engine.heap optr).customData.map fun cd => (s.customData cd).computedProfit

def compareProfits (s : State) (a b : Ptr) : Bool :=
  match s.computedProfit a, s.computedProfit b with
  | some aProfit, some bProfit => decide (aProfit < bProfit)
  | none, some _ => true
  | _, none => false

/-- The loop of `plr_close`; a failed `close_trade` of the winner ends it too. A null pointer would
be dereferenced where an order has no data. -/
def plrCloseFrom (env : Env) (tick : TickData) (winner : Ptr) : State → List Ptr → State × Bool
  | s, [] => (s, false)
  | s, optr :: rest =>
    let profit := (s.computedProfit optr).getD 0
    if rounded ((s.computedProfit winner).getD 0 + profit) <
        rounded (env.params.plr * env.roundedPoint) then
      plrCloseFrom env tick winner s rest
    else if 0 < profit then (s, false)
    else if s.isBuy winner = s.isBuy optr then plrCloseFrom env tick winner s rest
    else
      let (engine, closed) := s.engine.closeTrade tick optr
      if closed then
        let (engine, closed) := engine.closeTrade tick winner
        ({ s with engine }, closed)
      else plrCloseFrom env tick winner { s with engine } rest

def sortOpened (s : State) : State :=
  { s with
    engine := { s.engine with
      openedOrders := s.engine.openedOrders.mergeSort fun a b => !s.compareProfits b a } }

def plrClose (env : Env) (s : State) (tick : TickData) : State × Bool :=
  match s.sortOpened.engine.openedOrders.getLast? with
  | none => (s, false)
  | some winner =>
    if (s.computedProfit winner).getD 0 ≤ env.params.plr then (s.sortOpened, false)
    else plrCloseFrom env tick winner s.sortOpened s.sortOpened.engine.openedOrders

/-- Open orders of the strategy, with the profits of the tick. -/
structure UpToDate (s : State) (tick : TickData) : Prop where
  nodup : s.engine.openedOrders.Nodup
  open_ : ∀ optr ∈ s.engine.openedOrders, (s.engine.heap optr).isOpen = true
  type : ∀ optr ∈ s.engine.openedOrders,
    (s.engine.heap optr).type = .buyOrder ∨ (s.engine.heap optr).type = .sellOrder
  profit : ∀ optr ∈ s.engine.openedOrders,
    s.computedProfit optr = some ((s.engine.heap optr).roundedProfitAt tick)

def profit (s : State) (tick : TickData) (optr : Ptr) : ℚ :=
  (s.engine.heap optr).roundedProfitAt tick

/-- A buy and a sell have moved to the closed orders, with these profits. -/
def Moved (s s' : State) (buyProfit sellProfit : ℚ) : Prop :=
  ∃ buy sell, (s'.engine.heap buy).type = .buyOrder ∧ (s'.engine.heap sell).type = .sellOrder ∧
    s.engine.openedOrders.Perm (buy :: sell :: s'.engine.openedOrders) ∧
    s'.engine.closedOrders.Perm (buy :: sell :: s.engine.closedOrders) ∧
    (s'.engine.heap buy).roundedProfit = some buyProfit ∧
    (s'.engine.heap sell).roundedProfit = some sellProfit

structure EarnsMinimum (env : Env) (s : State) (tick : TickData) : Prop where
  closes : (s.plrClose env tick).2 = true → ∃ buyProfit sellProfit,
    s.Moved (s.plrClose env tick).1 buyProfit sellProfit ∧ env.params.plr ≤ buyProfit + sellProfit
  keeps : (s.plrClose env tick).2 = false →
    (s.plrClose env tick).1.engine.openedOrders.Perm s.engine.openedOrders

/-- A loser that the loop takes for this winner. -/
structure Eligible (env : Env) (s : State) (tick : TickData) (winner optr : Ptr) : Prop where
  mem : optr ∈ s.engine.openedOrders
  opposite : s.isBuy optr ≠ s.isBuy winner
  loss : s.profit tick optr ≤ 0
  paid : rounded (env.params.plr * env.roundedPoint) ≤
    rounded (s.profit tick winner + s.profit tick optr)

/-- If the last of the greatest profits is above `plr`, it leaves `plr` with each eligible loser. -/
def PaysMinimum (env : Env) (s : State) (tick : TickData) : Prop :=
  ∀ winner, IsLastMax (s.profit tick) s.engine.openedOrders winner →
    env.params.plr < s.profit tick winner → ∀ optr, s.Eligible env tick winner optr →
      env.params.plr ≤ s.profit tick winner + s.profit tick optr

/-! ### The sort -/

theorem sortOpened_perm (s : State) :
    s.sortOpened.engine.openedOrders.Perm s.engine.openedOrders := List.mergeSort_perm _ _

/-- What is compared; no profit is less than any. -/
def profitKey (s : State) (optr : Ptr) : WithBot ℚ := s.computedProfit optr

theorem compareProfits_eq (s : State) (a b : Ptr) :
    s.compareProfits a b = decide (s.profitKey a < s.profitKey b) := by
  rw [compareProfits, profitKey, profitKey]
  cases s.computedProfit a with
  | none =>
    cases s.computedProfit b with
    | none => exact (decide_eq_false (lt_irrefl (⊥ : WithBot ℚ))).symm
    | some q => exact (decide_eq_true (WithBot.bot_lt_coe q)).symm
  | some p =>
    cases s.computedProfit b with
    | none => exact (decide_eq_false (not_lt_bot : ¬ (p : WithBot ℚ) < ⊥)).symm
    | some q => exact decide_eq_decide.mpr WithBot.coe_lt_coe.symm

theorem sortOpened_eq (s : State) :
    s.sortOpened.engine.openedOrders = sortBy s.profitKey s.engine.openedOrders := by
  rw [sortOpened, sortBy]
  simp only [compareProfits_eq]

variable {env : Env} {s : State} {tick : TickData} {winner : Ptr}

theorem UpToDate.key_le_iff (h : s.UpToDate tick) {a b : Ptr} (ha : a ∈ s.engine.openedOrders)
    (hb : b ∈ s.engine.openedOrders) :
    s.profitKey a ≤ s.profitKey b ↔ s.profit tick a ≤ s.profit tick b := by
  rw [profitKey, profitKey, h.profit a ha, h.profit b hb]
  exact WithBot.coe_le_coe

theorem UpToDate.sorted (h : s.UpToDate tick) :
    s.sortOpened.engine.openedOrders.Pairwise fun a b => s.profit tick a ≤ s.profit tick b := by
  have hSorted := sortBy_sorted s.profitKey s.engine.openedOrders
  rw [← sortOpened_eq] at hSorted
  apply hSorted.imp_of_mem
  intro a b ha hb hab
  exact (h.key_le_iff (s.sortOpened_perm.mem_iff.mp ha) (s.sortOpened_perm.mem_iff.mp hb)).mp hab

theorem UpToDate.winner_iff (h : s.UpToDate tick) :
    s.sortOpened.engine.openedOrders.getLast? = some winner ↔
      IsLastMax (s.profit tick) s.engine.openedOrders winner := by
  rw [sortOpened_eq, getLast?_sortBy_iff h.nodup]
  exact IsLastMax.congr fun a ha b hb => h.key_le_iff ha hb

theorem UpToDate.winner_unique (h : s.UpToDate tick) {other : Ptr}
    (hWinner : IsLastMax (s.profit tick) s.engine.openedOrders winner)
    (hOther : IsLastMax (s.profit tick) s.engine.openedOrders other) : other = winner :=
  Option.some.inj ((h.winner_iff.mpr hOther).symm.trans (h.winner_iff.mpr hWinner))

theorem UpToDate.getD_computedProfit (h : s.UpToDate tick) {optr : Ptr}
    (hMem : optr ∈ s.engine.openedOrders) :
    (s.computedProfit optr).getD 0 = s.profit tick optr := by
  rw [h.profit optr hMem]
  rfl

/-! ### The loop -/

/-- The loop takes the biggest loss that it can, or closes nothing. -/
def LoopEnds (env : Env) (s : State) (tick : TickData) (winner : Ptr) (l : List Ptr)
    (result : State × Bool) : Prop :=
  (result = (s, false) ∧ ∀ optr ∈ l, ¬ s.Eligible env tick winner optr) ∨
    ∃ loser, s.Eligible env tick winner loser ∧
      (∀ optr ∈ l, s.Eligible env tick winner optr → s.profit tick loser ≤ s.profit tick optr) ∧
      result =
        ({ s with engine := ((s.engine.closeTrade tick loser).1.closeTrade tick winner).1 },
          ((s.engine.closeTrade tick loser).1.closeTrade tick winner).2)

theorem LoopEnds.cons {l : List Ptr} {result : State × Bool} {optr : Ptr}
    (h : LoopEnds env s tick winner l result) (hNot : ¬ s.Eligible env tick winner optr) :
    LoopEnds env s tick winner (optr :: l) result := by
  obtain ⟨hNone, hAll⟩ | ⟨loser, hLoser, hLeast, hClosed⟩ := h
  · exact .inl ⟨hNone, List.forall_mem_cons.mpr ⟨hNot, hAll⟩⟩
  · refine .inr ⟨loser, hLoser, ?_, hClosed⟩
    intro p hp hEligible
    obtain rfl | hp := List.mem_cons.mp hp
    · exact absurd hEligible hNot
    · exact hLeast p hp hEligible

theorem UpToDate.plrCloseFrom_ends (env : Env) (h : s.UpToDate tick)
    (hWinner : winner ∈ s.engine.openedOrders)
    {l : List Ptr} (hMem : ∀ optr ∈ l, optr ∈ s.engine.openedOrders)
    (hSorted : l.Pairwise fun a b => s.profit tick a ≤ s.profit tick b) :
    LoopEnds env s tick winner l (plrCloseFrom env tick winner s l) := by
  induction l with
  | nil => exact .inl ⟨rfl, nofun⟩
  | cons optr rest ih =>
    obtain ⟨hHere, hRest⟩ := List.forall_mem_cons.mp hMem
    obtain ⟨hHead, hTail⟩ := List.pairwise_cons.mp hSorted
    have hNext := ih hRest hTail
    rw [plrCloseFrom, h.getD_computedProfit hHere, h.getD_computedProfit hWinner]
    split
    · rename_i hUnpaid
      apply hNext.cons
      exact fun hEligible => hEligible.paid.not_gt hUnpaid
    · rename_i hPaid
      split
      · -- The profits only go up from here.
        rename_i hGain
        refine .inl ⟨rfl, ?_⟩
        intro p hp hEligible
        have hMore : s.profit tick optr ≤ s.profit tick p := by
          obtain rfl | hp := List.mem_cons.mp hp
          · exact le_rfl
          · exact hHead p hp
        exact (hGain.trans_le hMore).not_ge hEligible.loss
      · rename_i hLoss
        split
        · rename_i hType
          apply hNext.cons
          exact fun hEligible => hEligible.opposite hType.symm
        · rename_i hType
          refine .inr ⟨optr, ⟨hHere, Ne.symm hType, not_lt.mp hLoss, not_lt.mp hPaid⟩, ?_, ?_⟩
          · intro p hp _
            obtain rfl | hp := List.mem_cons.mp hp
            · exact le_rfl
            · exact hHead p hp
          · obtain ⟨o, hClose⟩ := Order.exists_closeAt tick (h.open_ optr hHere)
            rw [FxEngine.closeTrade_eq hClose hHere]
            rfl

/-! ### The pair -/

/-- The two orders have moved to the closed ones, with the profits of the tick. -/
structure ClosesPair (s s' : State) (tick : TickData) (loser winner : Ptr) : Prop where
  opened : s.engine.openedOrders.Perm (loser :: winner :: s'.engine.openedOrders)
  closed : s'.engine.closedOrders.Perm (loser :: winner :: s.engine.closedOrders)
  type : ∀ optr, (s'.engine.heap optr).type = (s.engine.heap optr).type
  loserProfit : (s'.engine.heap loser).roundedProfit = some (s.profit tick loser)
  winnerProfit : (s'.engine.heap winner).roundedProfit = some (s.profit tick winner)

theorem closesPair (h : s.UpToDate tick) {loser : Ptr} (hWinner : winner ∈ s.engine.openedOrders)
    (hLoser : loser ∈ s.engine.openedOrders) (hNe : winner ≠ loser) :
    ((s.engine.closeTrade tick loser).1.closeTrade tick winner).2 = true ∧
      s.ClosesPair
        { s with engine := ((s.engine.closeTrade tick loser).1.closeTrade tick winner).1 }
        tick loser winner := by
  obtain ⟨o, hClose⟩ := Order.exists_closeAt tick (h.open_ loser hLoser)
  obtain ⟨o', hClose'⟩ := Order.exists_closeAt tick (h.open_ winner hWinner)
  have hFirst := FxEngine.closeTrade_eq hClose hLoser
  have hOpened : winner ∈ s.engine.openedOrders.erase loser := (List.mem_erase_of_ne hNe).mpr hWinner
  have hHeap : ((s.engine.closeTrade tick loser).1.heap winner).closeAt tick = some o' := by
    rw [hFirst, FxEngine.recordClosed_heap, Function.update_of_ne hNe]
    exact hClose'
  have hSecond := FxEngine.closeTrade_eq hHeap (by rw [hFirst]; exact hOpened)
  rw [hSecond, hFirst]
  refine ⟨rfl, ?_⟩
  constructor
  case opened => exact (List.perm_cons_erase hLoser).trans ((List.perm_cons_erase hOpened).cons loser)
  case closed =>
    simp only [FxEngine.recordClosed_closedOrders]
    rw [List.append_assoc]
    exact List.perm_append_comm
  case type =>
    intro optr
    simp only [FxEngine.recordClosed_heap]
    obtain ⟨_, rfl⟩ := Order.closeAt_eq_some_iff.mp hClose
    obtain ⟨_, rfl⟩ := Order.closeAt_eq_some_iff.mp hClose'
    rw [Function.update_apply, Function.update_apply]
    split
    · rename_i hEq
      rw [hEq]
    · split
      · rename_i hEq
        rw [hEq]
      · rfl
  case loserProfit =>
    simp only [FxEngine.recordClosed_heap]
    rw [Function.update_of_ne hNe.symm, Function.update_self]
    exact Order.roundedProfit_of_closeAt hClose
  case winnerProfit =>
    simp only [FxEngine.recordClosed_heap]
    rw [Function.update_self]
    exact Order.roundedProfit_of_closeAt hClose'

theorem ClosesPair.moved {s' : State} {loser : Ptr} (hPair : s.ClosesPair s' tick loser winner)
    (h : s.UpToDate tick) (hWinner : winner ∈ s.engine.openedOrders)
    (hLoser : loser ∈ s.engine.openedOrders) (hType : s.isBuy loser ≠ s.isBuy winner) :
    ∃ buyProfit sellProfit, s.Moved s' buyProfit sellProfit ∧
      buyProfit + sellProfit = s.profit tick winner + s.profit tick loser := by
  obtain ⟨hOpened, hClosed, hTypes, hLoserProfit, hWinnerProfit⟩ := hPair
  rw [isBuy, isBuy] at hType
  obtain hBuy | hSell := h.type winner hWinner
  · have hOther : (s.engine.heap loser).type = .sellOrder := by
      obtain hBuy' | hSell := h.type loser hLoser
      · simp [hBuy, hBuy'] at hType
      · exact hSell
    refine ⟨_, _, ⟨winner, loser, ?_, ?_, ?_, ?_, hWinnerProfit, hLoserProfit⟩, rfl⟩
    · rw [hTypes, hBuy]
    · rw [hTypes, hOther]
    · exact hOpened.trans (List.Perm.swap winner loser _)
    · exact hClosed.trans (List.Perm.swap winner loser _)
  · have hOther : (s.engine.heap loser).type = .buyOrder := by
      obtain hBuy | hSell' := h.type loser hLoser
      · exact hBuy
      · simp [hSell, hSell'] at hType
    refine ⟨_, _, ⟨loser, winner, ?_, ?_, hOpened, hClosed, hLoserProfit, hWinnerProfit⟩, ?_⟩
    · rw [hTypes, hOther]
    · rw [hTypes, hSell]
    · exact add_comm _ _

/-- Only the two orders can be those that have moved. -/
theorem ClosesPair.sum_eq {s' : State} {loser : Ptr} (hPair : s.ClosesPair s' tick loser winner)
    {buyProfit sellProfit : ℚ} (hMoved : s.Moved s' buyProfit sellProfit) :
    buyProfit + sellProfit = s.profit tick winner + s.profit tick loser := by
  obtain ⟨buy, sell, _, _, hOpened, _, hBuy, hSell⟩ := hMoved
  have hPerm : [buy, sell].Perm [loser, winner] :=
    (List.perm_append_right_iff s'.engine.openedOrders).mp (hOpened.symm.trans hPair.opened)
  have hSum := (hPerm.map fun optr => (s'.engine.heap optr).roundedProfit.getD 0).sum_eq
  simp only [List.map_cons, List.map_nil, List.sum_cons, List.sum_nil, add_zero, hBuy, hSell,
    hPair.loserProfit, hPair.winnerProfit, Option.getD_some] at hSum
  rw [hSum, add_comm]

/-! ### The reducer -/

theorem UpToDate.sortOpened (h : s.UpToDate tick) : s.sortOpened.UpToDate tick where
  nodup := s.sortOpened_perm.nodup_iff.mpr h.nodup
  open_ optr hMem := h.open_ optr (s.sortOpened_perm.mem_iff.mp hMem)
  type optr hMem := h.type optr (s.sortOpened_perm.mem_iff.mp hMem)
  profit optr hMem := h.profit optr (s.sortOpened_perm.mem_iff.mp hMem)

theorem eligible_sortOpened_iff {optr : Ptr} :
    s.sortOpened.Eligible env tick winner optr ↔ s.Eligible env tick winner optr := by
  constructor
  · rintro ⟨hMem, hType, hLoss, hPaid⟩
    exact ⟨s.sortOpened_perm.mem_iff.mp hMem, hType, hLoss, hPaid⟩
  · rintro ⟨hMem, hType, hLoss, hPaid⟩
    exact ⟨s.sortOpened_perm.mem_iff.mpr hMem, hType, hLoss, hPaid⟩

theorem plrClose_eq (env : Env) (h : s.UpToDate tick)
    (hWinner : IsLastMax (s.profit tick) s.engine.openedOrders winner) :
    s.plrClose env tick =
      if s.profit tick winner ≤ env.params.plr then (s.sortOpened, false)
      else plrCloseFrom env tick winner s.sortOpened s.sortOpened.engine.openedOrders := by
  rw [plrClose, h.winner_iff.mpr hWinner]
  dsimp only
  rw [h.getD_computedProfit hWinner.mem]

/-- Nothing is closed, and no winner above `plr` has a loser that the loop would take. -/
structure ClosesNothing (env : Env) (s : State) (tick : TickData) (result : State × Bool) :
    Prop where
  code : result.2 = false
  perm : result.1.engine.openedOrders.Perm s.engine.openedOrders
  none : ∀ winner, IsLastMax (s.profit tick) s.engine.openedOrders winner →
    env.params.plr < s.profit tick winner → ∀ optr, ¬ s.Eligible env tick winner optr

/-- The winner is closed together with the loser of the biggest loss that is eligible. -/
structure ClosesBiggest (env : Env) (s : State) (tick : TickData) (result : State × Bool)
    (winner loser : Ptr) : Prop where
  code : result.2 = true
  pair : s.ClosesPair result.1 tick loser winner
  isLastMax : IsLastMax (s.profit tick) s.engine.openedOrders winner
  plr : env.params.plr < s.profit tick winner
  eligible : s.Eligible env tick winner loser
  least : ∀ optr, s.Eligible env tick winner optr → s.profit tick loser ≤ s.profit tick optr

theorem plrCloseFrom_cases (h : s.UpToDate tick)
    (hWinner : IsLastMax (s.profit tick) s.engine.openedOrders winner)
    (hPlr : env.params.plr < s.profit tick winner) {result : State × Bool}
    (hEnds : LoopEnds env s.sortOpened tick winner s.sortOpened.engine.openedOrders result) :
    s.ClosesNothing env tick result ∨ ∃ loser, s.ClosesBiggest env tick result winner loser := by
  obtain ⟨rfl, hAll⟩ | ⟨loser, hLoser, hLeast, rfl⟩ := hEnds
  · refine .inl ⟨rfl, s.sortOpened_perm, ?_⟩
    intro other hOther _ optr hEligible
    rw [h.winner_unique hWinner hOther] at hEligible
    exact hAll optr (s.sortOpened_perm.mem_iff.mpr hEligible.mem)
      (eligible_sortOpened_iff.mpr hEligible)
  · have hNe : winner ≠ loser := by
      rintro rfl
      exact hLoser.opposite rfl
    obtain ⟨hTrue, hPair⟩ :=
      closesPair h.sortOpened (s.sortOpened_perm.mem_iff.mpr hWinner.mem) hLoser.mem hNe
    refine .inr ⟨loser, hTrue, ?_, hWinner, hPlr, eligible_sortOpened_iff.mp hLoser, ?_⟩
    · exact ⟨s.sortOpened_perm.symm.trans hPair.opened, hPair.closed, hPair.type,
        hPair.loserProfit, hPair.winnerProfit⟩
    · intro optr hEligible
      exact hLeast optr (s.sortOpened_perm.mem_iff.mpr hEligible.mem)
        (eligible_sortOpened_iff.mpr hEligible)

theorem plrClose_cases (env : Env) (h : s.UpToDate tick) :
    s.ClosesNothing env tick (s.plrClose env tick) ∨
      ∃ winner loser, s.ClosesBiggest env tick (s.plrClose env tick) winner loser := by
  cases hLast : s.sortOpened.engine.openedOrders.getLast? with
  | none =>
    rw [plrClose, hLast]
    refine .inl ⟨rfl, List.Perm.refl _, ?_⟩
    intro winner hWinner
    have hNone := h.winner_iff.mpr hWinner
    rw [hLast] at hNone
    cases hNone
  | some winner =>
    have hWinner := h.winner_iff.mp hLast
    rw [plrClose_eq env h hWinner]
    split
    · rename_i hLow
      refine .inl ⟨rfl, s.sortOpened_perm, ?_⟩
      intro other hOther hPlr
      rw [h.winner_unique hWinner hOther] at hPlr
      exact absurd hPlr hLow.not_gt
    · rename_i hPlr
      have hEnds := h.sortOpened.plrCloseFrom_ends env
        (s.sortOpened_perm.mem_iff.mpr hWinner.mem) (fun _ hp => hp) h.sorted
      obtain hNothing | hBiggest := plrCloseFrom_cases h hWinner (not_le.mp hPlr) hEnds
      · exact .inl hNothing
      · exact .inr ⟨winner, hBiggest⟩

theorem EarnsMinimum.pays (h : s.UpToDate tick) (hEarns : s.EarnsMinimum env tick) :
    s.PaysMinimum env tick := by
  intro other hOther hPlr optr hEligible
  obtain hNothing | ⟨winner, loser, hBiggest⟩ := plrClose_cases env h
  · exact absurd hEligible (hNothing.none other hOther hPlr optr)
  · obtain rfl := h.winner_unique hBiggest.isLastMax hOther
    obtain ⟨buyProfit, sellProfit, hMoved, hSum⟩ := hEarns.closes hBiggest.code
    rw [hBiggest.pair.sum_eq hMoved] at hSum
    have hLess := hBiggest.least optr hEligible
    linarith

theorem PaysMinimum.earns (h : s.UpToDate tick) (hPays : s.PaysMinimum env tick) :
    s.EarnsMinimum env tick := by
  obtain hNothing | ⟨winner, loser, hBiggest⟩ := plrClose_cases env h
  · constructor
    · intro hTrue
      rw [hNothing.code] at hTrue
      contradiction
    · exact fun _ => hNothing.perm
  · have hLoser := hBiggest.eligible
    constructor
    · intro _
      obtain ⟨buyProfit, sellProfit, hMoved, hSum⟩ :=
        hBiggest.pair.moved h hBiggest.isLastMax.mem hLoser.mem hLoser.opposite
      refine ⟨buyProfit, sellProfit, hMoved, ?_⟩
      rw [hSum]
      exact hPays winner hBiggest.isLastMax hBiggest.plr loser hLoser
    · intro hFalse
      rw [hBiggest.code] at hFalse
      contradiction

/-- The reducer earns its minimum exactly where no loser lies between the two units of `plr`. -/
theorem earnsMinimum_iff (env : Env) (h : s.UpToDate tick) :
    s.EarnsMinimum env tick ↔ s.PaysMinimum env tick := by
  constructor
  · exact fun hEarns => hEarns.pays h
  · exact fun hPays => hPays.earns h

def minimumTwenty : Env where
  symbol := .eurusd
  params := {
    volume := 1, sl := 1000, tp := 1000, softTp := 0, step := 100, lvlTolerance := 5
    tradesPerLvl := 1, closeCycleOnProfit := 0, sectionsInHalfRange := 100, sectionsOffset := 0
    maxLotsAllowed := 0, maxSpread := 0, plr := 20 }
  outOfRange := fun _ => Doubles.intMin
  accepted := by decide +kernel

def buyAt (price : ℚ) : Order :=
  { type := .buyOrder, id := 1, symbol := .eurusd, volume := 1, orderPrice := price
    openPrice := some price, customData := some 0 }

def sellAt (price : ℚ) : Order :=
  { type := .sellOrder, id := 2, symbol := .eurusd, volume := 1, orderPrice := price
    openPrice := some price, customData := some 1 }

/-- A buy and a sell with the profits of a tick. -/
def buyAndSell (buy sell : Order) (tick : TickData) : State where
  engine := {
    heap := fun optr => if optr = 0 then buy else sell
    nextPtr := 2
    openedOrders := [0, 1] }
  customData := fun cd =>
    if cd = 0 then ⟨buy.orderPrice, buy.roundedProfitAt tick⟩
    else ⟨sell.orderPrice, sell.roundedProfitAt tick⟩
  nextData := 2

theorem buyAndSell_upToDate (buyPrice sellPrice : ℚ) (tick : TickData) :
    (buyAndSell (buyAt buyPrice) (sellAt sellPrice) tick).UpToDate tick where
  nodup := List.nodup_cons.mpr ⟨by simp, List.nodup_singleton _⟩
  open_ optr hMem := by
    obtain rfl | rfl : optr = 0 ∨ optr = 1 := by simpa [buyAndSell] using hMem
    · rfl
    · rfl
  type optr hMem := by
    obtain rfl | rfl : optr = 0 ∨ optr = 1 := by simpa [buyAndSell] using hMem
    · exact .inl rfl
    · exact .inr rfl
  profit optr hMem := by
    obtain rfl | rfl : optr = 0 ∨ optr = 1 := by simpa [buyAndSell] using hMem
    · rfl
    · rfl

def fiftyAndFortyFive : State :=
  buyAndSell (buyAt (rounded 1.0995)) (sellAt (rounded 1.09965)) (quote 1.1 1.1001 0)

/-- A winner of fifty is closed with a loser of forty-five, for a minimum of twenty. -/
theorem five_is_enough :
    fiftyAndFortyFive.UpToDate (quote 1.1 1.1001 0) ∧
      ¬ fiftyAndFortyFive.EarnsMinimum minimumTwenty (quote 1.1 1.1001 0) := by
  have hUpToDate : fiftyAndFortyFive.UpToDate (quote 1.1 1.1001 0) := buyAndSell_upToDate _ _ _
  refine ⟨hUpToDate, ?_⟩
  intro hEarns
  have hPays := hEarns.pays hUpToDate 0 ⟨[], [1], rfl, by simp, by decide +kernel⟩ (by decide +kernel) 1
    ⟨by decide, by decide, by decide +kernel, by decide +kernel⟩
  exact absurd hPays (by decide +kernel)

def fiftyAndTwentyFive : State :=
  buyAndSell (buyAt (rounded 1.0995)) (sellAt (rounded 1.09985)) (quote 1.1 1.1001 0)

/-- A loser of twenty-five leaves the winner more than its minimum. -/
theorem fiftyAndTwentyFive_pays :
    fiftyAndTwentyFive.PaysMinimum minimumTwenty (quote 1.1 1.1001 0) := by
  intro winner hWinner hPlr optr hEligible
  obtain rfl | rfl : winner = 0 ∨ winner = 1 := by
    simpa [fiftyAndTwentyFive, buyAndSell] using hWinner.mem
  · obtain rfl | rfl : optr = 0 ∨ optr = 1 := by
      simpa [fiftyAndTwentyFive, buyAndSell] using hEligible.mem
    · exact absurd rfl hEligible.opposite
    · decide +kernel
  · exact absurd hPlr (by decide +kernel)

theorem twenty_five_is_earned :
    fiftyAndTwentyFive.EarnsMinimum minimumTwenty (quote 1.1 1.1001 0) :=
  (earnsMinimum_iff minimumTwenty (buyAndSell_upToDate _ _ _)).mpr fiftyAndTwentyFive_pays

end State

end Fxquant.Ladder
