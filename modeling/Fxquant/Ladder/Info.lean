import Fxquant.Common.InfoMessage
import Fxquant.Gui.Server
import Fxquant.Ladder.Cycle
import Fxquant.Ladder.Figures
import Fxquant.Ladder.SelfFinancing

/-!
# The info of the ladder strategy

`set_info_xml`, between the figures of a tick and its trading, the line of `is_close_on_profit`
and the part of the engine's `on_tick` that makes a message of the lines and hands it to the
server. Who reads the saved message reads the figures of the book as the tick has found it.
-/

namespace Fxquant.Ladder

open Markup Pugixml OrderMessage PriceMessage FlatMessage InfoMessage FxEngine

/-! ### Lines -/

/-- The date of a day, counted from the beginning of 1970: the year, the month, the day. -/
def civil (day : ℤ) : ℤ × ℕ × ℕ :=
  -- Years start in March here, so that the leap day is the last one of its year.
  let era := (day + 719468) / 146097
  let doe := ((day + 719468) % 146097).toNat
  let yoe := (doe - doe / 1460 + doe / 36524 - doe / 146096) / 365
  let doy := doe - (365 * yoe + yoe / 4 - yoe / 100)
  let month := (5 * doy + 2) / 153
  let year : ℤ := yoe + era * 400
  (if month < 10 then year else year + 1, if month < 10 then month + 3 else month - 9,
    doy - (153 * month + 2) / 5 + 1)

def twoDigits (n : ℕ) : Text := if n < 10 then '0' :: unsigned n else unsigned n

/-- `strftime` with `%Y-%m-%d %H:%M:%S` on what `gmtime` makes of a time in seconds. -/
def utc (seconds : ℤ) : Text :=
  let date := civil (seconds / 86400)
  let second := (seconds % 86400).toNat
  signed date.1 ++ "-".toList ++ twoDigits date.2.1 ++ "-".toList ++ twoDigits date.2.2 ++ " ".toList ++
    twoDigits (second / 3600) ++ ":".toList ++ twoDigits (second / 60 % 60) ++ ":".toList ++
    twoDigits (second % 60)

example : utc 1454371205 = "2016-02-02 00:00:05".toList := by decide +kernel

/-- Both the seconds and the milliseconds that are left are cut towards zero, and the milliseconds
are written without zeros in front. -/
def timePointToString (time : ℤ) : Text :=
  utc (time.tdiv 1000) ++ ".".toList ++ signed (time.tmod 1000)

def setInfoXml (D : Decimals) (env : Env) (c : Compute) (tick : TickData) (d : InfoData) : InfoData :=
  d |>.addLine "symbol" (symbolToString env.symbol)
    |>.addLine "tick_time" (timePointToString tick.time)
    |>.addLine "spread" (D.put tick.spread)
    |>.addLine "section_iam_in" (signed c.section_)
    |>.addLine "close_profit" (D.put c.closeProfit)
    |>.addLine "equity" (D.put c.equity)
    |>.addLine "trades_buys" (unsigned c.openBuyTrades)
    |>.addLine "trades_sells" (unsigned c.openSellTrades)
    |>.addLine "volume_buys" (D.put c.openBuyVolume)
    |>.addLine "volume_sells" (D.put c.openSellVolume)
    |>.addLine "hedge" (D.put c.lotsExposure)

/-- The line that `is_close_on_profit` adds. -/
def addCycleProfit (D : Decimals) (env : Env) (s : State) (d : InfoData) : InfoData :=
  if env.params.closeCycleOnProfit = 0 then d else d.addLine "cycle_profit" (D.put s.cycleProfit)

/-! ### The engine -/

/-- The strategy on its engine, the lines of the latest tick, and what the server keeps. -/
structure Monitor where
  strategy : State
  infoData : InfoData := {}
  gui : Gui.GuiServer := {}

namespace Monitor

/-- `data_event_callback::on_tick`. -/
def onTick (D : Decimals) (env : Env) (s : Monitor) (tick : TickData) : Monitor :=
  let infoData :=
    setInfoXml D env (s.strategy.initializeCompute env tick).compute tick s.infoData.reset
  let infoData := addCycleProfit D env (s.strategy.checked env tick) infoData
  let strategy := s.strategy.onTick env tick
  if infoData.isEmpty then { s with strategy, infoData }
  else
    { s with
      strategy
      infoData
      gui := s.gui.saveInfo env.symbol (String.ofList infoData.makeXml) }

def after (D : Decimals) (env : Env) (autoOrderId : ℕ) (ticks : List TickData) : Monitor :=
  Runs.run (onTick D env) { strategy := start autoOrderId } ticks

variable {D : Decimals} {env : Env}

/-- The lines of `set_info_xml`, one for each figure. -/
def figures (D : Decimals) (env : Env) (c : Compute) (tick : TickData) : List (Text × Text) :=
  (setInfoXml D env c tick {}).info

def cycleProfit (D : Decimals) (env : Env) (s : State) : List (Text × Text) :=
  if env.params.closeCycleOnProfit = 0 then [] else [("cycle_profit".toList, D.put s.cycleProfit)]

/-- The lines of a tick that finds a state. -/
def lines (D : Decimals) (env : Env) (s : State) (tick : TickData) : List (Text × Text) :=
  figures D env (s.initializeCompute env tick).compute tick ++
    cycleProfit D env (s.checked env tick)

theorem addCycleProfit_eq (s : State) (d : InfoData) :
    addCycleProfit D env s d = { d with info := d.info ++ cycleProfit D env s } := by
  rw [addCycleProfit, cycleProfit]
  split
  · rw [List.append_nil]
  · rfl

/-- There are lines on every tick, so every tick saves a message. -/
theorem onTick_eq (s : Monitor) (tick : TickData) :
    s.onTick D env tick =
      { strategy := s.strategy.onTick env tick
        infoData := ⟨lines D env s.strategy tick, s.infoData.reset.counter⟩
        gui := s.gui.saveInfo env.symbol (String.ofList
          (InfoData.mk (lines D env s.strategy tick) s.infoData.reset.counter).makeXml) } := by
  have hLines : addCycleProfit D env (s.strategy.checked env tick)
      (setInfoXml D env (s.strategy.initializeCompute env tick).compute tick s.infoData.reset) =
        ⟨lines D env s.strategy tick, s.infoData.reset.counter⟩ := addCycleProfit_eq _ _
  have hSome : (InfoData.mk (lines D env s.strategy tick) s.infoData.reset.counter).isEmpty = false := rfl
  simp only [onTick, hLines, hSome]
  rfl

theorem after_concat (autoOrderId : ℕ) (ticks : List TickData) (tick : TickData) :
    after D env autoOrderId (ticks ++ [tick]) = (after D env autoOrderId ticks).onTick D env tick :=
  Runs.run_concat _ _ _

theorem after_strategy (autoOrderId : ℕ) (ticks : List TickData) :
    (after D env autoOrderId ticks).strategy = Ladder.after env autoOrderId ticks := by
  induction ticks using List.reverseRecOn with
  | nil => rfl
  | append_singleton ticks tick ih =>
    rw [after_concat, onTick_eq, Ladder.after_concat, ← ih]

theorem after_counter (autoOrderId : ℕ) (ticks : List TickData) :
    (after D env autoOrderId ticks).infoData.counter = ticks.length % 2 ^ 64 := by
  induction ticks using List.reverseRecOn with
  | nil => rfl
  | append_singleton ticks tick ih =>
    rw [after_concat, onTick_eq, List.length_append, List.length_singleton, ← Nat.mod_add_mod, ← ih]
    rfl

theorem after_getInfo_of_ne (autoOrderId : ℕ) (ticks : List TickData) {sym : Symbol}
    (h : sym ≠ env.symbol) : (after D env autoOrderId ticks).gui.getInfo sym = "" := by
  induction ticks using List.reverseRecOn with
  | nil => rfl
  | append_singleton ticks tick ih =>
    rw [after_concat, ← ih, onTick_eq, Gui.GuiServer.getInfo, Gui.GuiServer.saveInfo,
      OrderedMap.find?_put_of_ne _ _ h]
    rfl

/-! ### Reading -/

theorem isText_utc (seconds : ℤ) : ∀ c ∈ utc seconds, isText c = true := by
  have hTwo : ∀ n, ∀ c ∈ twoDigits n, isText c = true := by
    intro n c hc
    rw [twoDigits] at hc
    split at hc
    · rcases List.mem_cons.mp hc with rfl | hMem
      · rfl
      · exact isText_of_isPlain (isPlain_of_isDigit (isDigit_of_mem_unsigned hMem))
    · exact isText_of_isPlain (isPlain_of_isDigit (isDigit_of_mem_unsigned hc))
  have hYear : ∀ c ∈ signed (civil (seconds / 86400)).1, isText c = true :=
    fun c hc => isText_of_isPlain (signed_plain _ c hc)
  have hDash : ∀ c ∈ "-".toList, isText c = true := List.forall_mem_singleton.mpr rfl
  have hBlank : ∀ c ∈ " ".toList, isText c = true := List.forall_mem_singleton.mpr rfl
  have hColon : ∀ c ∈ ":".toList, isText c = true := List.forall_mem_singleton.mpr rfl
  simp only [utc, List.forall_mem_append]
  exact ⟨⟨⟨⟨⟨⟨⟨⟨⟨⟨hYear, hDash⟩, hTwo _⟩, hDash⟩, hTwo _⟩, hBlank⟩, hTwo _⟩, hColon⟩, hTwo _⟩,
    hColon⟩, hTwo _⟩

theorem line_time (time : ℤ) : Line ("tick_time".toList, timePointToString time) where
  name := rfl
  text := by
    have hPoint : ∀ c ∈ ".".toList, isText c = true := List.forall_mem_singleton.mpr rfl
    have hMilliseconds : ∀ c ∈ signed (time.tmod 1000), isText c = true :=
      fun c hc => isText_of_isPlain (signed_plain _ c hc)
    simp only [timePointToString, List.forall_mem_append]
    exact ⟨⟨isText_utc _, hPoint⟩, hMilliseconds⟩
  visible _ := by
    refine List.all_eq_false.mpr ⟨'.', ?_, by decide⟩
    rw [timePointToString]
    exact List.mem_append_left _ (List.mem_append_right _ List.mem_cons_self)

theorem line_put (hD : Rounds D) {name : String} (hName : isName name.toList = true) (q : ℚ) :
    Line (name.toList, D.put q) := .of_plain ⟨hName, put_plain hD.exact q⟩

theorem line_of_mem_figures (hD : Rounds D) (c : Compute) (tick : TickData) :
    ∀ f ∈ figures D env c tick, Line f := by
  have hCount : ∀ (name : String) n, isName name.toList = true → Line (name.toList, unsigned n) :=
    fun name n hName => .of_plain (plain_unsigned hName n)
  simp only [figures, setInfoXml, InfoData.addLine, List.forall_mem_append, List.forall_mem_singleton]
  exact ⟨⟨⟨⟨⟨⟨⟨⟨⟨⟨⟨List.forall_mem_nil _, .of_plain ⟨rfl, symbolToString_isPlain _⟩⟩, line_time _⟩,
    line_put hD rfl _⟩, .of_plain ⟨rfl, signed_plain _⟩⟩, line_put hD rfl _⟩, line_put hD rfl _⟩,
    hCount _ _ rfl⟩, hCount _ _ rfl⟩, line_put hD rfl _⟩, line_put hD rfl _⟩, line_put hD rfl _⟩

theorem line_of_mem_lines (hD : Rounds D) (s : State) (tick : TickData) :
    ∀ f ∈ lines D env s tick, Line f := by
  rw [lines, List.forall_mem_append]
  refine ⟨line_of_mem_figures hD _ tick, ?_⟩
  rw [cycleProfit]
  split
  · exact List.forall_mem_nil _
  · exact List.forall_mem_singleton.mpr (line_put hD rfl _)

end Monitor

/-! ### Figures -/

def ofType (e : FxEngine) (l : List Ptr) (type : OrderType) : ℕ :=
  l.countP fun p => (e.heap p).type = type

theorem ofType_cons (e : FxEngine) (p : Ptr) (l : List Ptr) (type : OrderType) :
    ofType e (p :: l) type = ofType e l type + if (e.heap p).type = type then 1 else 0 := by
  simp only [ofType, List.countP_cons, decide_eq_true_eq]

/-- The orders of a strategy all have its volume, so that the volume of a side is told by the
number of its orders. -/
theorem foldl_countOrder_sides {e : FxEngine} {volume : ℚ} {l : List Ptr}
    (h : ∀ p ∈ l, ((e.heap p).type = .buyOrder ∨ (e.heap p).type = .sellOrder) ∧
      (e.heap p).volume = volume) (c : Compute) :
    (l.foldl (fun c p => c.countOrder (e.heap p)) c).openBuyTrades =
        c.openBuyTrades + ofType e l .buyOrder ∧
      (l.foldl (fun c p => c.countOrder (e.heap p)) c).openSellTrades =
        c.openSellTrades + ofType e l .sellOrder ∧
      (l.foldl (fun c p => c.countOrder (e.heap p)) c).openBuyVolume =
        c.openBuyVolume + ofType e l .buyOrder * volume ∧
      (l.foldl (fun c p => c.countOrder (e.heap p)) c).openSellVolume =
        c.openSellVolume + ofType e l .sellOrder * volume := by
  induction l generalizing c with
  | nil => simp [ofType]
  | cons p l ih =>
    obtain ⟨hType, hVolume⟩ := h p List.mem_cons_self
    obtain ⟨hBuys, hSells, hBuyVolume, hSellVolume⟩ :=
      ih (fun q hq => h q (List.mem_cons_of_mem _ hq)) (c.countOrder (e.heap p))
    rw [List.foldl_cons, hBuys, hSells, hBuyVolume, hSellVolume, ofType_cons, ofType_cons]
    rcases hType with hType | hType
    · have hCount : c.countOrder (e.heap p) =
          { c with
            openBuyTrades := c.openBuyTrades + 1
            openBuyVolume := c.openBuyVolume + volume } := by
        rw [Compute.countOrder, if_pos hType, hVolume]
      rw [hCount, hType, if_pos rfl, if_neg (by decide)]
      push_cast
      exact ⟨by ring, by ring, by ring, by ring⟩
    · have hCount : c.countOrder (e.heap p) =
          { c with
            openSellTrades := c.openSellTrades + 1
            openSellVolume := c.openSellVolume + volume } := by
        rw [Compute.countOrder, if_neg (by rw [hType]; decide), hVolume]
      rw [hCount, hType, if_pos rfl, if_neg (by decide)]
      push_cast
      exact ⟨by ring, by ring, by ring, by ring⟩

/-- The section of a tick, by the range of the open prices. -/
def sectionOfBook (env : Env) (e : FxEngine) (tick : TickData) : ℤ :=
  ((((({} : Compute).resetValues tick).setOpenTradesMinmaxAndRange env e tick).setTopHalf
    ).setSectionIAmIn env).section_

theorem initializeCompute_section (env : Env) (s : State) (tick : TickData) :
    (s.initializeCompute env tick).compute.section_ = sectionOfBook env s.engine tick := by
  obtain ⟨_, _, _, ⟨_, _, hCompute⟩, _⟩ := State.initializeCompute_frame env s tick
  obtain ⟨_, _, _, hSection, _⟩ := Compute.loopOpenedOrders_frame s.engine
    ((((((s.compute.resetValues tick).setOpenTradesMinmaxAndRange env s.engine tick).setTopHalf
      ).setSectionIAmIn env).setDynamicSectionRisk env).setNearestLevel env)
  rw [hCompute]
  exact hSection

theorem initializeCompute_sides {env : Env} {s : State} (h : Inv env s) (tick : TickData) :
    (s.initializeCompute env tick).compute.openBuyTrades = orderCount s .buyOrder ∧
      (s.initializeCompute env tick).compute.openSellTrades = orderCount s .sellOrder ∧
      (s.initializeCompute env tick).compute.openBuyVolume =
        orderCount s .buyOrder * env.params.volume ∧
      (s.initializeCompute env tick).compute.openSellVolume =
        orderCount s .sellOrder * env.params.volume ∧
      (s.initializeCompute env tick).compute.lotsExposure =
        (orderCount s .buyOrder - orderCount s .sellOrder) * env.params.volume := by
  obtain ⟨_, _, _, ⟨_, _, hCompute⟩, _⟩ := State.initializeCompute_frame env s tick
  have hTerms : ∀ p ∈ s.engine.openedOrders, ((s.engine.heap p).type = .buyOrder ∨
      (s.engine.heap p).type = .sellOrder) ∧ (s.engine.heap p).volume = env.params.volume := by
    intro p hp
    obtain ⟨hType, _, hVolume, _⟩ := h.orders p (h.book.allocated p (by simp [hp]))
    exact ⟨hType, hVolume⟩
  obtain ⟨hBuys, hSells, hBuyVolume, hSellVolume⟩ := foldl_countOrder_sides hTerms
    ((((((s.compute.resetValues tick).setOpenTradesMinmaxAndRange env s.engine tick).setTopHalf
      ).setSectionIAmIn env).setDynamicSectionRisk env).setNearestLevel env)
  have hBuyLots := hBuyVolume.trans (zero_add _)
  have hSellLots := hSellVolume.trans (zero_add _)
  rw [hCompute]
  refine ⟨hBuys.trans (Nat.zero_add _), hSells.trans (Nat.zero_add _), hBuyLots, hSellLots, ?_⟩
  rw [sub_mul]
  exact congrArg₂ (· - ·) hBuyLots hSellLots

/-- Who reads a text as a number has the figure, rounded to seven digits. -/
def Near (D : Decimals) (children : List XmlNode) (name : String) (figure : ℚ) : Prop :=
  ∃ r, readDouble D children name = some r ∧ Digits.Nearest 10 7 figure r

/-- The elements of a message show the book of a state at the prices of a tick, and, where cycles
have a target, what is realised from an entry of the closed list on when the target is looked at. -/
structure Shows (D : Decimals) (env : Env) (s : State) (entry : ℕ) (tick : TickData)
    (children : List XmlNode) : Prop where
  symbol : textOf children "symbol" = some (symbolToString env.symbol)
  time : textOf children "tick_time" = some (timePointToString tick.time)
  inSection : textOf children "section_iam_in" = some (signed (sectionOfBook env s.engine tick))
  buys : textOf children "trades_buys" = some (unsigned (orderCount s .buyOrder))
  sells : textOf children "trades_sells" = some (unsigned (orderCount s .sellOrder))
  spread : Near D children "spread" tick.spread
  closeProfit : Near D children "close_profit" s.engine.calcClosedTradesStats.closeProfit
  equity : Near D children "equity" (s.engine.getEquity tick)
  volumeBuys : Near D children "volume_buys" (orderCount s .buyOrder * env.params.volume)
  volumeSells : Near D children "volume_sells" (orderCount s .sellOrder * env.params.volume)
  hedge : Near D children "hedge"
    ((orderCount s .buyOrder - orderCount s .sellOrder) * env.params.volume)
  noCycle : env.params.closeCycleOnProfit = 0 → textOf children "cycle_profit" = none
  cycle : env.params.closeCycleOnProfit ≠ 0 →
    Near D children "cycle_profit" ((s.checked env tick).engine.realised entry)

theorem shows_lines {D : Decimals} {env : Env} {s : State} {entry : ℕ} (hD : Rounds D)
    (h : Inv env s) (hCounts : Counts s entry) (tick : TickData) (counter : Text) :
    Shows D env s entry tick ((("id".toList, counter) :: Monitor.lines D env s tick).map leaf) := by
  have hData : ∀ p ∈ s.engine.openedOrders, (s.engine.heap p).customData.isSome = true := by
    intro p hp
    obtain ⟨_, _, _, _, cd, _, _, hData, _⟩ := h.orders p (h.book.allocated p (by simp [hp]))
    exact Option.isSome_of_eq_some hData
  obtain ⟨hEquity, hClose⟩ := State.initializeCompute_profits env tick hData
  obtain ⟨hBuys, hSells, hBuyVolume, hSellVolume, hHedge⟩ := initializeCompute_sides h tick
  have hSection := initializeCompute_section env s tick
  have hChecked : (s.checked env tick).cycleProfit = (s.checked env tick).engine.realised entry :=
    ((hCounts.opened h.book env tick).checkOrdersClosing
      (State.bookInv_opened env tick h.book) tick).cycleProfit
  -- The figures come before the line of the cycle, which is of another name.
  have hFigure : ∀ (name : String) text, (("id".toList, counter) ::
      Monitor.figures D env (s.initializeCompute env tick).compute tick).lookup name.toList = some text →
      (("id".toList, counter) :: Monitor.lines D env s tick).lookup name.toList = some text := by
    intro name text hLookup
    rw [Monitor.lines, ← List.cons_append, List.lookup_append, hLookup]
    rfl
  have hLast : (("id".toList, counter) :: Monitor.lines D env s tick).lookup "cycle_profit".toList =
      (Monitor.cycleProfit D env (s.checked env tick)).lookup "cycle_profit".toList := by
    rw [Monitor.lines, ← List.cons_append, List.lookup_append]
    rfl
  have hNear : ∀ (name : String) q, (("id".toList, counter) :: Monitor.lines D env s tick).lookup
      name.toList = some (D.put q) →
      Near D ((("id".toList, counter) :: Monitor.lines D env s tick).map leaf) name q := by
    intro name q hLookup
    obtain ⟨r, hRead, hNearest⟩ := hD.back q
    refine ⟨r, ?_, hNearest⟩
    rw [readDouble_leaves, hLookup]
    exact hRead
  exact {
    symbol := (textOf_leaves _ _).trans (hFigure _ _ rfl)
    time := (textOf_leaves _ _).trans (hFigure _ _ rfl)
    inSection := (textOf_leaves _ _).trans (hFigure _ _ (by rw [← hSection]; rfl))
    buys := (textOf_leaves _ _).trans (hFigure _ _ (by rw [← hBuys]; rfl))
    sells := (textOf_leaves _ _).trans (hFigure _ _ (by rw [← hSells]; rfl))
    spread := hNear _ _ (hFigure _ _ rfl)
    closeProfit := hNear _ _ (hFigure _ _ (by rw [← hClose]; rfl))
    equity := hNear _ _ (hFigure _ _ (by rw [← hEquity]; rfl))
    volumeBuys := hNear _ _ (hFigure _ _ (by rw [← hBuyVolume]; rfl))
    volumeSells := hNear _ _ (hFigure _ _ (by rw [← hSellVolume]; rfl))
    hedge := hNear _ _ (hFigure _ _ (by rw [← hHedge]; rfl))
    noCycle := by
      intro hTarget
      rw [textOf_leaves, hLast, Monitor.cycleProfit, if_pos hTarget]
      rfl
    cycle := by
      intro hTarget
      refine hNear _ _ ?_
      rw [hLast, Monitor.cycleProfit, if_neg hTarget, hChecked]
      rfl }

/-- After every tick the server keeps a message of the strategy's symbol, and of no other, which is
read as the figures of the book that the tick has found, and as the profit of the cycle. -/
theorem saved_info_shows_book {D : Decimals} (hD : Rounds D) (env : Env) (autoOrderId : ℕ)
    (ticks : List TickData) (tick : TickData) :
    (∃ children, (parse ((Monitor.after D env autoOrderId (ticks ++ [tick])).gui.getInfo
        env.symbol).toList).bind (child "message".toList) =
          some ([("id".toList, "info".toList)], children) ∧
      textOf children "id" = some (unsigned ((ticks.length + 1) % 2 ^ 64)) ∧
      Shows D env (after env autoOrderId ticks) (cycleStart env autoOrderId ticks) tick children) ∧
    ∀ sym, sym ≠ env.symbol →
      (Monitor.after D env autoOrderId (ticks ++ [tick])).gui.getInfo sym = "" := by
  refine ⟨?_, fun sym hSym => Monitor.after_getInfo_of_ne autoOrderId _ hSym⟩
  have hInv := inv_after env autoOrderId ticks
  have hCounter : (Monitor.after D env autoOrderId ticks).infoData.reset.counter =
      (ticks.length + 1) % 2 ^ 64 := by
    rw [InfoData.reset, Monitor.after_counter, Nat.mod_add_mod]
  have hSaved : ((Monitor.after D env autoOrderId (ticks ++ [tick])).gui.getInfo env.symbol).toList =
      (InfoData.mk (Monitor.lines D env (after env autoOrderId ticks) tick)
        ((ticks.length + 1) % 2 ^ 64)).makeXml := by
    rw [Monitor.after_concat, Monitor.onTick_eq, Gui.GuiServer.getInfo_saveInfo, String.toList_ofList,
      Monitor.after_strategy, hCounter]
  rw [hSaved]
  refine ⟨_, parse_makeXml _ (Monitor.line_of_mem_lines hD _ tick), ?_,
    shows_lines hD hInv (counts_after env autoOrderId ticks) tick _⟩
  rw [textOf_leaves]
  rfl

/-- The tick after the first order of a run shows one buy. -/
theorem first_buy_shown :
    ∃ children, (parse ((Monitor.after fixed targetThree 0 [quote 1.0000 1.0001 0,
        quote 1.0008 1.0009 1000]).gui.getInfo .eurusd).toList).bind
          (child "message".toList) = some ([("id".toList, "info".toList)], children) ∧
      textOf children "trades_buys" = some "1".toList := by
  obtain ⟨⟨children, hRead, _, hShows⟩, _⟩ := saved_info_shows_book fixed_rounds targetThree 0
    [quote 1.0000 1.0001 0] (quote 1.0008 1.0009 1000)
  have hCount : orderCount (after targetThree 0 [quote 1.0000 1.0001 0]) .buyOrder = 1 := by
    decide +kernel
  refine ⟨children, hRead, ?_⟩
  rw [hShows.buys, hCount]
  rfl

end Fxquant.Ladder
