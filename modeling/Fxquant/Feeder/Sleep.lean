import Fxquant.Feeder.Feeders

/-!
# Simulated time

The `sleep` of `controlled_feeder.cpp`. What the gaps between the ticks come to is kept in `delay_`
until it is worth a sleep of 20 milliseconds; the sleep divides it by the speed factor, which a
client may change at any time, and leaves the remainder. Every `int` that the code computes is
checked against the range of `int`.
-/

namespace Fxquant.Feeder

def int (n : ℤ) : Option ℤ := if -2 ^ 31 ≤ n ∧ n < 2 ^ 31 then some n else none

/-- `prev_time_` is the epoch before the first tick. -/
structure Pace where
  delay : ℤ := 0
  prevTime : ℤ := 0
  deriving DecidableEq

/-- A call: the time of the tick, the speed factor that a client has set, if any, and whether the
feeder is warming up. -/
structure SleepCall where
  time : ℤ
  option : Option ℤ
  warmingUp : Bool
  deriving DecidableEq

variable (speedFactor : ℤ)

/-- `speedFactor` is the configured one. -/
def SleepCall.factor (c : SleepCall) : ℤ :=
  match c.option with
  | some factor => if 0 < factor then factor else speedFactor
  | none => speedFactor

namespace Pace

def addGap (s : Pace) (time : ℤ) : Option ℤ :=
  if 0 < s.prevTime then
    let ms := time - s.prevTime
    if ms ≤ 60000 then do
      let ms ← int ms
      int (s.delay + ms)
    else some s.delay
  else some s.delay

/-- One call, and the milliseconds it sleeps; nothing if an `int` overflows. -/
def sleep (s : Pace) (c : SleepCall) : Option (Pace × ℤ) :=
  if c.warmingUp then some ({ s with prevTime := c.time }, 0)
  else do
    let delay ← s.addGap c.time
    let minDelay ← int (20 * c.factor speedFactor)
    if minDelay ≤ delay then do
      let d ← int (delay.tdiv (c.factor speedFactor))
      let simulated ← int (d * c.factor speedFactor)
      let delay ← int (delay - simulated)
      some (⟨delay, c.time⟩, d)
    else some (⟨delay, c.time⟩, 0)

def sleepCall (s : Pace × List ℤ) (c : SleepCall) : Option (Pace × List ℤ) := do
  let (s', d) ← s.1.sleep speedFactor c
  some (s', s.2 ++ [d])

end Pace

def sleepAll (calls : List SleepCall) : Option (Pace × List ℤ) :=
  calls.foldlM (Pace.sleepCall speedFactor) ({}, [])

def simulated (calls : List SleepCall) (slept : List ℤ) : ℤ :=
  (List.zipWith (fun c d => d * c.factor speedFactor) calls slept).sum

/-- The gaps of at most a minute before the calls outside warm-up, if they begin at such a time. -/
def countedGaps (begins : ℤ → Bool) (calls : List SleepCall) : List ℤ :=
  ((calls.zip calls.tail).filter fun (a, b) =>
    !b.warmingUp && decide (b.time - a.time ≤ 60000) && begins a.time).map
      fun (a, b) => b.time - a.time

/-- No `int` overflows, the time that was slept and what is left of it come to the gaps, and what is
left is not worth a sleep. -/
def Conserves (begins : ℤ → Bool) (calls : List SleepCall) : Prop :=
  ∃ s slept, sleepAll speedFactor calls = some (s, slept) ∧
    simulated speedFactor calls slept + s.delay = (countedGaps begins calls).sum ∧
    ∀ c ∈ calls.getLast?, c.warmingUp = false →
      0 ≤ s.delay ∧ s.delay < 20 * c.factor speedFactor

/-- A factor that the percentages of a client come to is in force at each call outside warm-up, and
the ticks come in the order of their times. -/
structure InForce (calls : List SleepCall) : Prop where
  factors : ∀ c ∈ calls, c.warmingUp = false →
    1 ≤ c.factor speedFactor ∧ c.factor speedFactor ≤ 900
  times : calls.Pairwise fun a b => a.time ≤ b.time

/-- What the calls leave; the gap of the next one begins at the last one. -/
structure Ledger (calls : List SleepCall) (s : Pace) (slept : List ℤ) : Prop where
  run : sleepAll speedFactor calls = some (s, slept)
  length : slept.length = calls.length
  prevTime : s.prevTime = (calls.getLast?.map SleepCall.time).getD 0
  delay : 0 ≤ s.delay ∧ s.delay < 18000
  balance : simulated speedFactor calls slept + s.delay =
    (countedGaps (fun begins => decide (0 < begins)) calls).sum
  last : ∀ c ∈ calls.getLast?, c.warmingUp = false →
    0 ≤ s.delay ∧ s.delay < 20 * c.factor speedFactor

variable {speedFactor}

/-! ### One call -/

theorem int_eq {n : ℤ} (h : -2 ^ 31 ≤ n) (h' : n < 2 ^ 31) : int n = some n := if_pos ⟨h, h'⟩

def Pace.gap (s : Pace) (time : ℤ) : ℤ :=
  if 0 < s.prevTime ∧ time - s.prevTime ≤ 60000 then time - s.prevTime else 0

theorem Pace.gap_bounds {s : Pace} {time : ℤ} (h : 0 < s.prevTime → s.prevTime ≤ time) :
    0 ≤ s.gap time ∧ s.gap time ≤ 60000 := by
  rw [Pace.gap]
  split
  · rename_i hCounted
    have hTime := h hCounted.1
    omega
  · omega

theorem Pace.addGap_eq {s : Pace} {time : ℤ} (h : 0 < s.prevTime → s.prevTime ≤ time)
    (hDelay : 0 ≤ s.delay) (hDelay' : s.delay < 18000) :
    s.addGap time = some (s.delay + s.gap time) := by
  rw [Pace.addGap, Pace.gap]
  by_cases hPrev : 0 < s.prevTime
  · have hTime := h hPrev
    simp only [hPrev, if_true, true_and]
    split
    · rw [int_eq (by omega) (by omega), Option.bind_eq_bind, Option.bind_some,
        int_eq (by omega) (by omega)]
    · rw [add_zero]
  · simp only [hPrev, if_false, false_and, add_zero]

/-- Dividing by the factor leaves less than the factor. -/
theorem Pace.sleep_outside {s : Pace} {c : SleepCall} (hUp : c.warmingUp = false)
    (hFactor : 1 ≤ c.factor speedFactor) (hFactor' : c.factor speedFactor ≤ 900)
    (hDelay : 0 ≤ s.delay) (hDelay' : s.delay < 18000)
    (hTime : 0 < s.prevTime → s.prevTime ≤ c.time) :
    ∃ delay d, s.sleep speedFactor c = some (⟨delay, c.time⟩, d) ∧
      d * c.factor speedFactor + delay = s.delay + s.gap c.time ∧
      0 ≤ delay ∧ delay < 20 * c.factor speedFactor := by
  obtain ⟨hGap, hGap'⟩ := Pace.gap_bounds hTime
  have hLow : 0 ≤ s.delay + s.gap c.time := by omega
  have hHigh : s.delay + s.gap c.time < 78000 := by omega
  rw [Pace.sleep, if_neg (by simp [hUp]), Pace.addGap_eq hTime hDelay hDelay']
  generalize c.factor speedFactor = factor at hFactor hFactor' ⊢
  generalize s.delay + s.gap c.time = delay at hLow hHigh ⊢
  rw [Option.bind_eq_bind, Option.bind_some, int_eq (by omega) (by omega), Option.bind_some]
  split
  · have hQuotient : delay.tdiv factor = delay / factor := Int.tdiv_eq_ediv_of_nonneg hLow
    have hQuotientLow : 0 ≤ delay / factor := Int.ediv_nonneg hLow (by omega)
    have hQuotientHigh : delay / factor ≤ delay := Int.ediv_le_self factor hLow
    have hSplit : delay / factor * factor + delay % factor = delay := Int.ediv_mul_add_emod delay factor
    have hRest : 0 ≤ delay % factor := Int.emod_nonneg delay (by omega)
    have hRest' : delay % factor < factor := Int.emod_lt_of_pos delay (by omega)
    have hProduct : delay / factor * factor = delay - delay % factor := by omega
    refine ⟨delay % factor, delay / factor, ?_, hSplit, hRest, by omega⟩
    rw [hQuotient, int_eq (by omega) (by omega), Option.bind_some, hProduct,
      int_eq (by omega) (by omega), Option.bind_some, sub_sub_cancel,
      int_eq (by omega) (by omega), Option.bind_some]
  · rename_i hSmall
    refine ⟨delay, 0, rfl, by omega, hLow, by omega⟩

theorem Pace.sleep_warmingUp {s : Pace} {c : SleepCall} (hUp : c.warmingUp = true) :
    s.sleep speedFactor c = some ({ s with prevTime := c.time }, 0) := if_pos hUp

/-! ### All calls -/

theorem sleepAll_concat {calls : List SleepCall} {s s' : Pace} {slept : List ℤ} {c : SleepCall}
    {d : ℤ} (h : sleepAll speedFactor calls = some (s, slept))
    (hCall : s.sleep speedFactor c = some (s', d)) :
    sleepAll speedFactor (calls ++ [c]) = some (s', slept ++ [d]) := by
  rw [sleepAll] at h ⊢
  rw [List.foldlM_append, h, Option.bind_eq_bind, Option.bind_some, List.foldlM_cons,
    Pace.sleepCall, hCall]
  rfl

theorem simulated_concat {calls : List SleepCall} {slept : List ℤ}
    (h : slept.length = calls.length) (c : SleepCall) (d : ℤ) :
    simulated speedFactor (calls ++ [c]) (slept ++ [d]) =
      simulated speedFactor calls slept + d * c.factor speedFactor := by
  rw [simulated, List.zipWith_append h.symm, List.sum_append, ← simulated]
  simp

theorem pairs_concat {calls : List SleepCall} {a : SleepCall} (h : a ∈ calls.getLast?)
    (c : SleepCall) : (calls ++ [c]).zip (calls ++ [c]).tail = calls.zip calls.tail ++ [(a, c)] := by
  induction calls with
  | nil => cases h
  | cons b calls ih =>
    cases calls with
    | nil =>
      cases h
      rfl
    | cons b' calls =>
      rw [List.getLast?_cons_cons] at h
      exact congrArg ((b, b') :: ·) (ih h)

theorem countedGaps_concat {begins : ℤ → Bool} {calls : List SleepCall} {a : SleepCall}
    (h : a ∈ calls.getLast?) (c : SleepCall) :
    (countedGaps begins (calls ++ [c])).sum = (countedGaps begins calls).sum +
      if c.warmingUp = false ∧ c.time - a.time ≤ 60000 ∧ begins a.time = true then c.time - a.time
      else 0 := by
  rw [countedGaps, pairs_concat h, List.filter_append, List.map_append, List.sum_append,
    ← countedGaps, List.filter_singleton]
  congr 1
  by_cases hCounted : c.warmingUp = false ∧ c.time - a.time ≤ 60000 ∧ begins a.time = true
  · obtain ⟨hUp, hShort, hBegins⟩ := hCounted
    simp [hUp, hShort, hBegins]
  · have hNot : (!c.warmingUp && decide (c.time - a.time ≤ 60000) && begins a.time) = false := by
      rw [← Bool.not_eq_true]
      simpa [and_assoc] using hCounted
    rw [if_neg hCounted]
    dsimp only
    rw [hNot]
    rfl

theorem Ledger.nil : Ledger speedFactor [] {} [] where
  run := rfl
  length := rfl
  prevTime := rfl
  delay := ⟨le_rfl, by norm_num⟩
  balance := rfl
  last c h := by cases h

/-- The gaps that the calls add are the counted ones. -/
theorem Ledger.sum_gaps {calls : List SleepCall} {s : Pace} {slept : List ℤ}
    (h : Ledger speedFactor calls s slept) (c : SleepCall) :
    (countedGaps (fun begins => decide (0 < begins)) (calls ++ [c])).sum =
      (countedGaps (fun begins => decide (0 < begins)) calls).sum +
        if c.warmingUp = false then s.gap c.time else 0 := by
  cases hLast : calls.getLast? with
  | none =>
    have hPrev : s.prevTime = 0 := by rw [h.prevTime, hLast]; rfl
    rw [List.getLast?_eq_none_iff.mp hLast]
    simp [countedGaps, Pace.gap, hPrev]
  | some a =>
    have hPrev : s.prevTime = a.time := by rw [h.prevTime, hLast]; rfl
    rw [countedGaps_concat hLast, Pace.gap, hPrev]
    congr 1
    by_cases hUp : c.warmingUp = false
    · simp [hUp, and_comm]
    · simp [hUp]

theorem Ledger.concat_warmingUp {calls : List SleepCall} {s : Pace} {slept : List ℤ} {c : SleepCall}
    (h : Ledger speedFactor calls s slept) (hUp : c.warmingUp = true) :
    Ledger speedFactor (calls ++ [c]) { s with prevTime := c.time } (slept ++ [0]) where
  run := sleepAll_concat h.run (Pace.sleep_warmingUp hUp)
  length := by
    rw [List.length_append, List.length_append, h.length]
    rfl
  prevTime := by
    rw [List.getLast?_concat]
    rfl
  delay := h.delay
  balance := by
    rw [simulated_concat h.length, h.sum_gaps, if_neg (by simp [hUp]), zero_mul, add_zero, add_zero]
    exact h.balance
  last c' hc' hOutside := by
    rw [List.getLast?_concat] at hc'
    rw [← Option.some.inj hc', hUp] at hOutside
    contradiction

/-- The gap of the call goes into what it sleeps and what it leaves. -/
theorem Ledger.concat_outside {calls : List SleepCall} {s : Pace} {slept : List ℤ} {c : SleepCall}
    (h : Ledger speedFactor calls s slept) (hUp : c.warmingUp = false) {delay d : ℤ}
    (hSleep : s.sleep speedFactor c = some (⟨delay, c.time⟩, d))
    (hSplit : d * c.factor speedFactor + delay = s.delay + s.gap c.time) (hLow : 0 ≤ delay)
    (hHigh : delay < 20 * c.factor speedFactor) (hFactor : c.factor speedFactor ≤ 900) :
    Ledger speedFactor (calls ++ [c]) ⟨delay, c.time⟩ (slept ++ [d]) where
  run := sleepAll_concat h.run hSleep
  length := by
    rw [List.length_append, List.length_append, h.length]
    rfl
  prevTime := by
    rw [List.getLast?_concat]
    rfl
  delay := ⟨hLow, by dsimp only; omega⟩
  balance := by
    have hBalance := h.balance
    rw [simulated_concat h.length, h.sum_gaps, if_pos hUp]
    dsimp only
    omega
  last c' hc' _ := by
    rw [List.getLast?_concat] at hc'
    rw [← Option.some.inj hc']
    exact ⟨hLow, hHigh⟩

theorem Ledger.prevTime_le {calls : List SleepCall} {s : Pace} {slept : List ℤ} {c : SleepCall}
    (h : Ledger speedFactor calls s slept)
    (hTimes : (calls ++ [c]).Pairwise fun a b => a.time ≤ b.time) (hPrev : 0 < s.prevTime) :
    s.prevTime ≤ c.time := by
  cases hEnd : calls.getLast? with
  | none =>
    rw [h.prevTime, hEnd] at hPrev
    exact absurd hPrev (lt_irrefl 0)
  | some a =>
    rw [h.prevTime, hEnd]
    have hOrder := (List.pairwise_append.mp hTimes).2.2
    exact hOrder a (List.mem_of_getLast? hEnd) c List.mem_cons_self

theorem Ledger.concat {calls : List SleepCall} {s : Pace} {slept : List ℤ} {c : SleepCall}
    (h : Ledger speedFactor calls s slept)
    (hForce : InForce speedFactor (calls ++ [c])) :
    ∃ s' slept', Ledger speedFactor (calls ++ [c]) s' slept' := by
  cases hUp : c.warmingUp with
  | true => exact ⟨_, _, h.concat_warmingUp hUp⟩
  | false =>
    obtain ⟨hFactor, hFactor'⟩ := hForce.factors c (by simp) hUp
    obtain ⟨delay, d, hSleep, hSplit, hLow, hHigh⟩ :=
      Pace.sleep_outside hUp hFactor hFactor' h.delay.1 h.delay.2 (h.prevTime_le hForce.times)
    exact ⟨_, _, h.concat_outside hUp hSleep hSplit hLow hHigh hFactor'⟩

theorem exists_ledger {calls : List SleepCall} (h : InForce speedFactor calls) :
    ∃ s slept, Ledger speedFactor calls s slept := by
  induction calls using List.reverseRecOn with
  | nil => exact ⟨{}, [], Ledger.nil⟩
  | append_singleton calls c ih =>
    have hBefore : InForce speedFactor calls :=
      ⟨fun c' hc' => h.factors c' (List.mem_append_left _ hc'), (List.pairwise_append.mp h.times).1⟩
    obtain ⟨s, slept, hLedger⟩ := ih hBefore
    exact hLedger.concat h

/-- Time that passes after the epoch is conserved, whatever factors are in force. -/
theorem time_conserved {calls : List SleepCall} (h : InForce speedFactor calls) :
    Conserves speedFactor (fun begins => decide (0 < begins)) calls := by
  obtain ⟨s, slept, hLedger⟩ := exists_ledger h
  exact ⟨s, slept, hLedger.run, hLedger.balance, hLedger.last⟩

theorem two_factors_conserve :
    Conserves 1 (fun begins => decide (0 < begins))
      [⟨1000, none, false⟩, ⟨2055, some 7, false⟩, ⟨2056, some 60, false⟩,
        ⟨70000, some 60, false⟩, ⟨75000, some 60, false⟩] :=
  time_conserved ⟨by decide, by decide⟩

/-- A gap that begins at the epoch is taken for the time before the first tick. -/
theorem gap_from_epoch_lost :
    ¬ ∀ speedFactor calls, InForce speedFactor calls →
      Conserves speedFactor (fun _ => true) calls := by
  intro hAll
  have hForce : InForce 1 [⟨0, none, false⟩, ⟨1000, none, false⟩] := ⟨by decide, by decide⟩
  obtain ⟨s, slept, hRun, hBalance, _⟩ := hAll 1 _ hForce
  have hEnd : sleepAll 1 [⟨0, none, false⟩, ⟨1000, none, false⟩] =
      some (⟨0, 1000⟩, [0, 0]) := by decide
  rw [hEnd] at hRun
  cases hRun
  exact absurd hBalance (by decide)

end Fxquant.Feeder
