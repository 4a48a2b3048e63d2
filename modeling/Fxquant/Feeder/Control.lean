import Fxquant.Feeder.Period
import Fxquant.Library.Runs

/-!
# Starting and stopping a feeder

`start`, `stop` and the thread of `run`, of `controlled_feeder.cpp` and, without a lookback, of
`dummy_feeder.cpp`. A thread can be stopped, or lose the database, between any two ticks. The
first one that passes any tick on fills the cache, and no later one passes on more.
-/

namespace Fxquant.Feeder

structure Setup where
  sym : Symbol
  docs : List TickData
  useCache : Bool
  lookbackMinutes : ℕ

/-- The ticks of the database. -/
def Setup.ticks (setup : Setup) : List TickData := setup.docs.map (tickOf setup.sym)

/-- One thread of a feeder: what it was to pass on and what it has passed on; `cut` says that it
has left its loop early. -/
structure Cycle where
  source : List TickData
  ticks : List TickData := []
  cut : Bool := false
  deriving DecidableEq

/-- `rest` is what the loop over the cache has left. -/
structure Thread where
  cycle : Cycle
  fromCache : Bool
  rest : List TickData := []

/-- `cursor` is what the cursor has left, `stopping` says that `stop` waits for the thread. -/
structure Control where
  feeder : ControlledFeeder := {}
  cursor : List TickData := []
  running : Bool := false
  stopping : Bool := false
  thread : Option Thread := none
  signals : ℕ := 0
  calls : List Call := []
  cycles : List Cycle := []

namespace Control

inductive Step where
  | start (connected : Bool)
  | stop
  | joined
  | turn
  | fail
  deriving DecidableEq

/-- `on_tick` of the feeder, within a thread. -/
def pass (setup : Setup) (s : Control) (td : TickData) : Control :=
  let (factories, calls) := onTick s.feeder.factories td
    (isWarmingUp setup.lookbackMinutes s.feeder.barCount)
  { s with
    feeder := { s.feeder with factories, barCount := s.feeder.barCount + calls.countP isMinuteBar }
    calls := s.calls ++ calls }

def endThread (s : Control) (cycle : Cycle) (cut : Bool) : Control :=
  { s with
    thread := none
    signals := s.signals + 1
    cycles := s.cycles ++ [{ cycle with cut }] }

/-- `start`, with the beginning of `run`: an empty cache is filled by a query, which may throw. -/
def start (setup : Setup) (s : Control) (connected : Bool) : Control :=
  if s.running || s.stopping then s
  else if s.feeder.cache = [] ∧ connected = false then s
  else
    let cursor := if s.feeder.cache = [] then setup.docs else s.cursor
    if setup.useCache ∧ s.feeder.cache ≠ [] then
      { s with
        cursor
        running := true
        thread := some ⟨{ source := s.feeder.cache }, true, s.feeder.cache⟩ }
    else
      { s with
        feeder := { s.feeder with cache := [] }
        cursor
        running := true
        thread := some ⟨{ source := cursor.map (tickOf setup.sym) }, false, []⟩ }

/-- One time through a loop of `run`. -/
def turn (setup : Setup) (s : Control) : Control :=
  match s.thread with
  | none => s
  | some ⟨cycle, true, []⟩ => s.endThread cycle false
  | some ⟨cycle, true, td :: rest⟩ =>
    if s.running then
      { s.pass setup td with
        thread := some ⟨{ cycle with ticks := cycle.ticks ++ [td] }, true, rest⟩ }
    else s.endThread cycle true
  | some ⟨cycle, false, rest⟩ =>
    match s.cursor with
    | [] => s.endThread cycle false
    | doc :: docs =>
      if s.running then
        let td := tickOf setup.sym doc
        let cache := if setup.useCache then s.feeder.cache ++ [td] else s.feeder.cache
        { { s with cursor := docs, feeder := { s.feeder with cache } }.pass setup td with
          thread := some ⟨{ cycle with ticks := cycle.ticks ++ [td] }, false, rest⟩ }
      else s.endThread cycle true

/-- The calls come from one thread, which waits in `stop`. -/
def step (setup : Setup) (s : Control) : Step → Control
  | .start connected => s.start setup connected
  | .stop => if s.running then { s with running := false, stopping := true } else s
  | .joined => if s.thread.isNone then { s with stopping := false } else s
  | .turn => s.turn setup
  | .fail =>
    match s.thread with
    | some ⟨cycle, false, _⟩ => s.endThread cycle true
    | _ => s

/-! ### What the threads pass on -/

/-- The ticks that the cache has after some threads: those of the first that passed any on. -/
def cached (cycles : List Cycle) : List TickData :=
  cycles.foldl (fun cache c => if cache = [] then c.ticks else cache) []

def sourceAfter (setup : Setup) (cycles : List Cycle) : List TickData :=
  if setup.useCache ∧ cached cycles ≠ [] then cached cycles else setup.ticks

def Sound (setup : Setup) (before : List Cycle) (c : Cycle) : Prop :=
  c.source = sourceAfter setup before ∧ c.ticks <+: c.source ∧ (c.cut = false → c.ticks = c.source)

/-- The threads with the one that is alive. -/
def history (s : Control) : List Cycle := s.cycles ++ (s.thread.map Thread.cycle).toList

def remaining (setup : Setup) (s : Control) (t : Thread) : List TickData :=
  if t.fromCache then t.rest else s.cursor.map (tickOf setup.sym)

theorem cached_concat (cycles : List Cycle) (c : Cycle) :
    cached (cycles ++ [c]) = if cached cycles = [] then c.ticks else cached cycles := by
  rw [cached, List.foldl_append]
  rfl

structure Inv (setup : Setup) (s : Control) : Prop where
  cycles : ∀ before c later, s.cycles = before ++ c :: later → Sound setup before c
  source : ∀ t, s.thread = some t → t.cycle.source = sourceAfter setup s.cycles
  rest : ∀ t, s.thread = some t → t.cycle.source = t.cycle.ticks ++ s.remaining setup t
  origin : ∀ t, s.thread = some t → (t.fromCache = true ↔ setup.useCache ∧ cached s.cycles ≠ [])
  cache : s.feeder.cache = if setup.useCache then cached s.history else []
  calls : controlledLoop setup.lookbackMinutes (newFactories, 0) (s.history.flatMap Cycle.ticks) =
    ((s.feeder.factories, s.feeder.barCount), s.calls)
  alive : s.thread ≠ none → s.running = true ∨ s.stopping = true
  signals : s.signals = s.cycles.length

theorem forall_split_concat {α : Type} {P : List α → α → Prop} {l : List α} {a : α}
    (h : ∀ before c later, l = before ++ c :: later → P before c) (ha : P l a) :
    ∀ before c later, l ++ [a] = before ++ c :: later → P before c := by
  intro before c later hSplit
  rcases List.eq_nil_or_concat' later with rfl | ⟨later, last, rfl⟩
  · obtain ⟨rfl, hLast⟩ := List.append_inj' hSplit rfl
    obtain rfl := (List.cons.inj hLast).1
    exact ha
  · rw [← List.cons_append, ← List.append_assoc] at hSplit
    exact h before c later (List.append_inj' hSplit rfl).1

namespace Inv

variable {setup : Setup} {s : Control}

theorem empty (setup : Setup) : Inv setup {} where
  cycles before c later h := absurd h (by simp)
  source t h := absurd h (by simp)
  rest t h := absurd h (by simp)
  origin t h := absurd h (by simp)
  cache := by
    cases setup.useCache <;> rfl
  calls := rfl
  alive h := absurd rfl h
  signals := rfl

theorem history_of_none (h : s.thread = none) : s.history = s.cycles := by
  rw [history, h, Option.map_none, Option.toList_none, List.append_nil]

theorem history_of_some {t : Thread} (h : s.thread = some t) : s.history = s.cycles ++ [t.cycle] := by
  rw [history, h, Option.map_some, Option.toList_some]

theorem cached_of_cursor (h : Inv setup s) {t : Thread} (hThread : s.thread = some t)
    (hCursor : t.fromCache = false) (hUse : setup.useCache = true) : cached s.cycles = [] := by
  by_contra hNe
  have hCache := (h.origin t hThread).mpr ⟨hUse, hNe⟩
  rw [hCursor] at hCache
  cases hCache

/-! #### The start -/

theorem fromCache (h : Inv setup s) (hThread : s.thread = none) (hUse : setup.useCache = true)
    (hNe : s.feeder.cache ≠ []) :
    Inv setup { s with
      running := true
      thread := some ⟨{ source := s.feeder.cache }, true, s.feeder.cache⟩ } := by
  have hCache : s.feeder.cache = cached s.cycles := by
    rw [h.cache, if_pos hUse, history_of_none hThread]
  have hCached : cached s.cycles ≠ [] := hCache ▸ hNe
  constructor
  case cycles => exact h.cycles
  case source =>
    rintro t ⟨⟩
    rw [sourceAfter, if_pos ⟨hUse, hCached⟩]
    exact hCache
  case rest =>
    rintro t ⟨⟩
    rfl
  case origin =>
    rintro t ⟨⟩
    exact ⟨fun _ => ⟨hUse, hCached⟩, fun _ => rfl⟩
  case cache =>
    rw [history_of_some rfl, cached_concat, if_neg hCached, if_pos hUse]
    exact hCache
  case calls =>
    have hCalls := h.calls
    rw [history_of_none hThread] at hCalls
    rw [history_of_some rfl, List.flatMap_append]
    simpa using hCalls
  case alive => exact fun _ => .inl rfl
  case signals => exact h.signals

theorem fromCursor (h : Inv setup s) (hThread : s.thread = none)
    (hEmpty : s.feeder.cache = []) :
    Inv setup { s with
      feeder := { s.feeder with cache := [] }
      cursor := setup.docs
      running := true
      thread := some ⟨{ source := setup.ticks }, false, []⟩ } := by
  have hNot : ¬ (setup.useCache = true ∧ cached s.cycles ≠ []) := by
    rintro ⟨hUse, hNe⟩
    have hCache := h.cache
    rw [if_pos hUse, history_of_none hThread, hEmpty] at hCache
    exact hNe hCache.symm
  constructor
  case cycles => exact h.cycles
  case source =>
    rintro t ⟨⟩
    rw [sourceAfter, if_neg hNot]
  case rest =>
    rintro t ⟨⟩
    rfl
  case origin =>
    rintro t ⟨⟩
    exact ⟨fun hFalse => absurd hFalse Bool.false_ne_true, fun hBoth => absurd hBoth hNot⟩
  case cache =>
    rw [history_of_some rfl, cached_concat]
    dsimp only
    split
    · rename_i hUse
      rw [if_pos (not_not.mp fun hNe => hNot ⟨hUse, hNe⟩)]
    · rfl
  case calls =>
    have hCalls := h.calls
    rw [history_of_none hThread] at hCalls
    rw [history_of_some rfl, List.flatMap_append]
    simpa using hCalls
  case alive => exact fun _ => .inl rfl
  case signals => exact h.signals

theorem start (h : Inv setup s) (connected : Bool) : Inv setup (s.start setup connected) := by
  rw [Control.start]
  by_cases hBusy : (s.running || s.stopping) = true
  · rwa [if_pos hBusy]
  have hThread : s.thread = none := by
    by_contra hAlive
    exact hBusy (by simpa using h.alive hAlive)
  rw [if_neg hBusy]
  by_cases hEmpty : s.feeder.cache = []
  · by_cases hDown : connected = false
    · rwa [if_pos ⟨hEmpty, hDown⟩]
    · have hLoop : ¬ (setup.useCache = true ∧ s.feeder.cache ≠ []) := fun hNe => hNe.2 hEmpty
      rw [if_neg fun hBoth => hDown hBoth.2]
      simp only [if_neg hLoop, if_pos hEmpty]
      exact h.fromCursor hThread hEmpty
  · have hUse : setup.useCache = true := by
      by_contra hUse
      exact hEmpty (by rw [h.cache, if_neg hUse])
    have hLoop : setup.useCache = true ∧ s.feeder.cache ≠ [] := ⟨hUse, hEmpty⟩
    simp only [hEmpty, false_and, if_false, if_pos hLoop]
    exact h.fromCache hThread hUse hEmpty

/-! #### The thread -/

theorem endThread (h : Inv setup s) {t : Thread} (hThread : s.thread = some t) {cut : Bool}
    (hCut : cut = false → t.cycle.ticks = t.cycle.source) : Inv setup (s.endThread t.cycle cut) := by
  have hHistory : ∀ cycles, history (Control.endThread s t.cycle cut) = cycles →
      cycles = s.cycles ++ [{ t.cycle with cut }] := by
    rintro _ rfl
    exact history_of_none rfl
  have hSound : Sound setup s.cycles { t.cycle with cut } :=
    ⟨h.source t hThread, ⟨_, (h.rest t hThread).symm⟩, hCut⟩
  constructor
  case cycles => exact forall_split_concat h.cycles hSound
  case source => exact fun t' h' => absurd h' (by simp [Control.endThread])
  case rest => exact fun t' h' => absurd h' (by simp [Control.endThread])
  case origin => exact fun t' h' => absurd h' (by simp [Control.endThread])
  case cache =>
    have hCache := h.cache
    rw [history_of_some hThread, cached_concat] at hCache
    rw [hHistory _ rfl, cached_concat]
    exact hCache
  case calls =>
    have hCalls := h.calls
    rw [history_of_some hThread, List.flatMap_append] at hCalls
    rw [hHistory _ rfl, List.flatMap_append]
    exact hCalls
  case alive => exact fun hAlive => absurd rfl hAlive
  case signals =>
    change s.signals + 1 = (s.cycles ++ [_]).length
    rw [List.length_append, h.signals]
    rfl

/-- The calls of a feeder go on from thread to thread. -/
theorem calls_pass (h : Inv setup s) {t : Thread} (hThread : s.thread = some t) (td : TickData) :
    controlledLoop setup.lookbackMinutes (newFactories, 0)
        (s.cycles.flatMap Cycle.ticks ++ (t.cycle.ticks ++ [td])) =
      (((s.pass setup td).feeder.factories, (s.pass setup td).feeder.barCount),
        (s.pass setup td).calls) := by
  have hCalls := h.calls
  rw [history_of_some hThread, List.flatMap_append, List.flatMap_singleton] at hCalls
  rw [← List.append_assoc, controlledLoop_append, hCalls, controlledLoop_cons, pass]
  simp [controlledLoop, onTick]

theorem passCached (h : Inv setup s) {cycle : Cycle} {td : TickData} {rest : List TickData}
    (hThread : s.thread = some ⟨cycle, true, td :: rest⟩) (hRunning : s.running = true) :
    Inv setup { s.pass setup td with
      thread := some ⟨{ cycle with ticks := cycle.ticks ++ [td] }, true, rest⟩ } := by
  obtain ⟨_, hNe⟩ := (h.origin _ hThread).mp rfl
  constructor
  case cycles => exact h.cycles
  case source =>
    rintro t ⟨⟩
    have hSource := h.source _ hThread
    exact hSource
  case rest =>
    rintro t ⟨⟩
    rw [List.append_assoc]
    exact h.rest _ hThread
  case origin =>
    rintro t ⟨⟩
    have hOrigin := h.origin _ hThread
    exact hOrigin
  case cache =>
    have hCache := h.cache
    rw [history_of_some hThread, cached_concat, if_neg hNe] at hCache
    rw [history_of_some rfl, cached_concat]
    change s.feeder.cache = if setup.useCache then if cached s.cycles = [] then _ else _ else []
    rw [if_neg hNe]
    exact hCache
  case calls =>
    rw [history_of_some rfl, List.flatMap_append, List.flatMap_singleton]
    exact h.calls_pass hThread td
  case alive => exact fun _ => .inl hRunning
  case signals => exact h.signals

theorem passQueried (h : Inv setup s) {cycle : Cycle} {rest : List TickData} {doc : TickData}
    {docs : List TickData} (hThread : s.thread = some ⟨cycle, false, rest⟩)
    (hCursor : s.cursor = doc :: docs) (hRunning : s.running = true) :
    let td := tickOf setup.sym doc
    let cache := if setup.useCache then s.feeder.cache ++ [td] else s.feeder.cache
    Inv setup { { s with cursor := docs, feeder := { s.feeder with cache } }.pass setup td with
      thread := some ⟨{ cycle with ticks := cycle.ticks ++ [td] }, false, rest⟩ } := by
  intro td cache
  constructor
  case cycles => exact h.cycles
  case source =>
    rintro t ⟨⟩
    have hSource := h.source _ hThread
    exact hSource
  case rest =>
    rintro t ⟨⟩
    have hRest := h.rest _ hThread
    simp only [remaining, Bool.false_eq_true, if_false, hCursor, List.map_cons] at hRest
    exact hRest.trans (List.append_assoc _ [td] _).symm
  case origin =>
    rintro t ⟨⟩
    have hOrigin := h.origin _ hThread
    exact hOrigin
  case cache =>
    have hCache := h.cache
    rw [history_of_some hThread, cached_concat] at hCache
    rw [history_of_some rfl, cached_concat]
    change (if setup.useCache then s.feeder.cache ++ [td] else s.feeder.cache) = _
    cases hUse : setup.useCache with
    | true =>
      have hNone := h.cached_of_cursor hThread rfl hUse
      rw [hUse, if_pos rfl, if_pos hNone] at hCache
      rw [if_pos rfl, if_pos rfl, hCache]
      exact (if_pos hNone).symm
    | false => simpa [hUse] using hCache
  case calls =>
    rw [history_of_some rfl, List.flatMap_append, List.flatMap_singleton]
    exact h.calls_pass hThread td
  case alive => exact fun _ => .inl hRunning
  case signals => exact h.signals

theorem turn (h : Inv setup s) : Inv setup (s.turn setup) := by
  rw [Control.turn]
  rcases hThread : s.thread with _ | ⟨cycle, fromCache, rest⟩
  · exact h
  have hRest := h.rest _ hThread
  cases fromCache with
  | true =>
    cases rest with
    | nil =>
      refine h.endThread hThread fun _ => ?_
      simpa [remaining] using hRest.symm
    | cons td rest =>
      by_cases hRunning : s.running = true
      · dsimp only
        rw [if_pos hRunning]
        exact h.passCached hThread hRunning
      · dsimp only
        rw [if_neg hRunning]
        exact h.endThread hThread fun hFalse => absurd hFalse (by simp)
  | false =>
    cases hCursor : s.cursor with
    | nil =>
      refine h.endThread hThread fun _ => ?_
      simpa [remaining, hCursor] using hRest.symm
    | cons doc docs =>
      by_cases hRunning : s.running = true
      · dsimp only
        rw [if_pos hRunning]
        exact h.passQueried hThread hCursor hRunning
      · dsimp only
        rw [if_neg hRunning]
        exact h.endThread hThread fun hFalse => absurd hFalse (by simp)

theorem step (h : Inv setup s) (i : Step) : Inv setup (s.step setup i) := by
  cases i with
  | start connected => exact h.start connected
  | stop =>
    rw [Control.step]
    split
    · exact ⟨h.cycles, h.source, h.rest, h.origin, h.cache, h.calls, fun _ => .inr rfl, h.signals⟩
    · exact h
  | joined =>
    rw [Control.step]
    split
    · rename_i hNone
      exact ⟨h.cycles, h.source, h.rest, h.origin, h.cache, h.calls,
        fun hAlive => absurd (Option.isNone_iff_eq_none.mp hNone) hAlive, h.signals⟩
    · exact h
  | turn => exact h.turn
  | fail =>
    rw [Control.step]
    rcases hThread : s.thread with _ | ⟨cycle, fromCache, rest⟩
    · exact h
    · cases fromCache with
      | true => exact h
      | false => exact h.endThread hThread fun hFalse => absurd hFalse (by simp)

end Inv

/-! ### The end of a thread -/

/-- How often a thread goes through its loop before it ends by itself. -/
def left (setup : Setup) (s : Control) : ℕ :=
  match s.thread with
  | none => 0
  | some t => (s.remaining setup t).length + 1

theorem left_turn (setup : Setup) (s : Control) : (s.turn setup).left setup ≤ s.left setup - 1 := by
  rw [turn]
  rcases hThread : s.thread with _ | ⟨cycle, fromCache, rest⟩
  · simp [left, hThread]
  cases fromCache with
  | true =>
    cases rest with
    | nil => simp [left, endThread]
    | cons td rest =>
      by_cases hRunning : s.running = true
      · simp [left, hThread, hRunning, remaining]
      · simp [left, hRunning, endThread]
  | false =>
    cases hCursor : s.cursor with
    | nil => simp [left, endThread]
    | cons doc docs =>
      by_cases hRunning : s.running = true
      · simp [left, hThread, hRunning, remaining, hCursor, pass]
      · simp [left, hRunning, endThread]

/-- A thread ends after as many turns, so `stop` returns. -/
theorem turns_end (setup : Setup) {s : Control} {n : ℕ} (h : s.left setup ≤ n) :
    (Runs.run (step setup) s (List.replicate n .turn)).thread = none := by
  induction n generalizing s with
  | zero =>
    rw [left] at h
    cases hThread : s.thread with
    | none => exact hThread
    | some t =>
      rw [hThread] at h
      exact absurd h (Nat.not_succ_le_zero _)
  | succ n ih =>
    rw [List.replicate_succ, Runs.run_cons]
    exact ih ((left_turn setup s).trans (by omega))

/-! ### The calls -/

theorem calls_turn (setup : Setup) (s : Control) : s.calls <+: (s.turn setup).calls := by
  rw [turn]
  split
  · exact List.prefix_rfl
  · exact List.prefix_rfl
  · split
    · exact List.prefix_append _ _
    · exact List.prefix_rfl
  · split
    · exact List.prefix_rfl
    · split
      · exact List.prefix_append _ _
      · exact List.prefix_rfl

/-- Only a turn of a thread makes calls. -/
theorem calls_step (setup : Setup) (s : Control) {i : Step} (hTurn : i ≠ .turn) :
    (step setup s i).calls = s.calls := by
  cases i with
  | start connected =>
    rw [step, start]
    split
    · rfl
    · split
      · rfl
      · dsimp only
        split <;> rfl
  | stop =>
    rw [step]
    split <;> rfl
  | joined =>
    rw [step]
    split <;> rfl
  | turn => exact absurd rfl hTurn
  | fail =>
    rw [step]
    split <;> rfl

/-! ### The ticks of the database -/

theorem mem_of_mem_cached {cycles : List Cycle} {td : TickData} (h : td ∈ cached cycles) :
    ∃ c ∈ cycles, td ∈ c.ticks := by
  induction cycles using List.reverseRecOn with
  | nil => exact absurd h List.not_mem_nil
  | append_singleton cycles c ih =>
    rw [cached_concat] at h
    split at h
    · exact ⟨c, by simp, h⟩
    · obtain ⟨c', hMem, hTick⟩ := ih h
      exact ⟨c', List.mem_append_left _ hMem, hTick⟩

theorem mem_of_sound {setup : Setup} {before : List Cycle} {c : Cycle}
    (hBefore : ∀ b ∈ before, ∀ td ∈ b.ticks, td ∈ setup.ticks)
    (hSource : c.source = sourceAfter setup before) (hTicks : c.ticks <+: c.source) :
    ∀ td ∈ c.ticks, td ∈ setup.ticks := by
  intro td hTd
  have hMem : td ∈ sourceAfter setup before := hSource ▸ hTicks.subset hTd
  rw [sourceAfter] at hMem
  split at hMem
  · obtain ⟨b, hb, hTick⟩ := mem_of_mem_cached hMem
    exact hBefore b hb td hTick
  · exact hMem

theorem mem_of_cycles {setup : Setup} {cycles : List Cycle}
    (h : ∀ before c later, cycles = before ++ c :: later → Sound setup before c) :
    ∀ c ∈ cycles, ∀ td ∈ c.ticks, td ∈ setup.ticks := by
  induction cycles using List.reverseRecOn with
  | nil => simp
  | append_singleton cycles last ih =>
    have hBefore : ∀ c ∈ cycles, ∀ td ∈ c.ticks, td ∈ setup.ticks :=
      ih fun before c later hSplit => h before c (later ++ [last]) (by simp [hSplit])
    obtain ⟨hSource, hTicks, _⟩ := h cycles last [] rfl
    intro c hc
    rcases List.mem_append.mp hc with hEarlier | hLast
    · exact hBefore c hEarlier
    · rw [List.mem_singleton.mp hLast]
      exact mem_of_sound hBefore hSource hTicks

/-- Nothing is passed on that is not in the database. -/
theorem Inv.mem_ticks {setup : Setup} {s : Control} (h : Inv setup s) :
    ∀ td ∈ s.history.flatMap Cycle.ticks, td ∈ setup.ticks := by
  intro td hTd
  obtain ⟨c, hc, hTick⟩ := List.mem_flatMap.mp hTd
  have hCycles := mem_of_cycles h.cycles
  rcases List.mem_append.mp hc with hEnded | hAlive
  · exact hCycles c hEnded td hTick
  · obtain ⟨t, hThread, rfl⟩ := Option.map_eq_some_iff.mp (Option.mem_toList.mp hAlive)
    exact mem_of_sound hCycles (h.source t hThread) ⟨_, (h.rest t hThread).symm⟩ td hTick

/-- Whenever a feeder is started and stopped, and wherever its threads are cut short: each thread
passes on a part from the beginning of the ticks of the database, or of what the first thread with
any ticks has left in the cache, and all of it unless it was cut. The calls are those of one loop over
all these ticks, each thread signals once, and comes to its end. -/
theorem threads_feed_cache (setup : Setup) (steps : List Step) :
    let s := Runs.run (step setup) {} steps
    (∀ before c later, s.cycles = before ++ c :: later → Sound setup before c) ∧
      (∀ t, s.thread = some t → t.cycle.source = sourceAfter setup s.cycles ∧
        t.cycle.ticks <+: t.cycle.source) ∧
      s.calls = (controlledLoop setup.lookbackMinutes (newFactories, 0)
        (s.history.flatMap Cycle.ticks)).2 ∧
      s.signals = s.cycles.length ∧
      (Runs.run (step setup) s (List.replicate (s.left setup) .turn)).thread = none := by
  intro s
  have hInv : Inv setup s := Runs.run_invariant (Inv setup) (fun _ i h => h.step i) (.empty setup) steps
  refine ⟨hInv.cycles, fun t hThread => ⟨hInv.source t hThread, ?_⟩, ?_, hInv.signals,
    turns_end setup le_rfl⟩
  · exact ⟨_, (hInv.rest t hThread).symm⟩
  · rw [hInv.calls]

/-- A thread that is stopped after one of two ticks leaves one for the threads to come. -/
example : ((Runs.run (step ⟨.eurusd, [⟨1, 2, 60000⟩, ⟨1, 2, 61000⟩], true, 0⟩) {}
    [.start true, .turn, .stop, .turn, .joined, .start true, .turn, .turn]).cycles.map
      fun c => (c.ticks.length, c.cut)) = [(1, true), (1, false)] := by decide +kernel

end Control

end Fxquant.Feeder
