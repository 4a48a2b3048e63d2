import Mathlib.Algebra.Group.Defs
import Mathlib.Data.List.Infix

/-!
# Runs of a total transition function

A machine is a function from a state and an input to the next state; an input that is not
enabled leaves the state as it is. `Always` speaks about every step of a run, in the state
that step starts from, so a property of steps and a condition on steps are compared by
induction along the run, with an invariant at hand.
-/

namespace Runs

universe u v w

variable {σ : Type u} {ι : Type v} {step : σ → ι → σ}

def run (step : σ → ι → σ) (s : σ) (inputs : List ι) : σ := inputs.foldl step s

def Always (step : σ → ι → σ) (P : σ → ι → Prop) : σ → List ι → Prop
  | _, [] => True
  | s, i :: inputs => P s i ∧ Always step P (step s i) inputs

@[simp] theorem run_nil (s : σ) : run step s [] = s := rfl

@[simp] theorem run_cons (s : σ) (i : ι) (inputs : List ι) :
    run step s (i :: inputs) = run step (step s i) inputs := rfl

theorem run_append (s : σ) (before after : List ι) :
    run step s (before ++ after) = run step (run step s before) after :=
  List.foldl_append

theorem run_concat (s : σ) (inputs : List ι) (i : ι) :
    run step s (inputs ++ [i]) = step (run step s inputs) i := by
  rw [run_append]
  rfl

/-- A machine that carries a second component along runs as it does alone. -/
theorem run_fst {τ : Type w} (note : σ × τ → ι → τ) (s : σ) (t : τ) (inputs : List ι) :
    (run (fun st i => (step st.1 i, note st i)) (s, t) inputs).1 = run step s inputs := by
  induction inputs generalizing s t with
  | nil => rfl
  | cons i inputs ih => exact ih (step s i) (note (s, t) i)

/-- Two machines that stay related from step to step are related after their runs. -/
theorem run_simulates {τ κ : Type w} {step' : τ → κ → τ} (R : σ → τ → Prop) (f : ι → κ) {s : σ}
    {t : τ} (h : R s t) {inputs : List ι}
    (hStep : ∀ s t, R s t → ∀ i ∈ inputs, R (step s i) (step' t (f i))) :
    R (run step s inputs) (run step' t (inputs.map f)) := by
  induction inputs generalizing s t with
  | nil => exact h
  | cons i inputs ih =>
    exact ih (hStep s t h i List.mem_cons_self) fun s t hR j hj =>
      hStep s t hR j (List.mem_cons_of_mem _ hj)

theorem run_invariant_of_mem (I : σ → Prop) {s : σ} (h : I s) {inputs : List ι}
    (hStep : ∀ s, I s → ∀ i ∈ inputs, I (step s i)) : I (run step s inputs) := by
  induction inputs generalizing s with
  | nil => exact h
  | cons i inputs ih =>
    have hNext := hStep s h i List.mem_cons_self
    exact ih hNext fun s hs j hj => hStep s hs j (List.mem_cons_of_mem _ hj)

theorem run_invariant (I : σ → Prop) (hStep : ∀ s i, I s → I (step s i)) {s : σ} (h : I s)
    (inputs : List ι) : I (run step s inputs) :=
  run_invariant_of_mem I h fun s hs i _ => hStep s i hs

/-- Steps of a run that meet a condition keep an invariant which other steps may break. -/
theorem run_invariant_of_always (I : σ → Prop) {P : σ → ι → Prop}
    (hStep : ∀ s i, I s → P s i → I (step s i)) {s : σ} (h : I s) {inputs : List ι}
    (hRun : Always step P s inputs) : I (run step s inputs) := by
  induction inputs generalizing s with
  | nil => exact h
  | cons i inputs ih => exact ih (hStep s i h hRun.1) hRun.2

/-- Where all steps keep two properties and one input leads from the first to the second, a run with
that input ends with the second. -/
theorem run_of_mem {P Q : σ → Prop} (hKeepP : ∀ s i, P s → P (step s i))
    (hKeepQ : ∀ s i, Q s → Q (step s i)) {i : ι} (hNext : ∀ s, P s → Q (step s i)) {s : σ} (h : P s)
    {inputs : List ι} (hMem : i ∈ inputs) : Q (run step s inputs) := by
  obtain ⟨before, after, rfl⟩ := List.append_of_mem hMem
  rw [run_append, run_cons]
  exact run_invariant Q hKeepQ (hNext _ (run_invariant P hKeepP h before)) after

theorem always_of_invariant (I : σ → Prop) {P : σ → ι → Prop} {s : σ} (hI : I s) {inputs : List ι}
    (hStep : ∀ s, I s → ∀ i ∈ inputs, P s i ∧ I (step s i)) : Always step P s inputs := by
  induction inputs generalizing s with
  | nil => trivial
  | cons i inputs ih =>
    obtain ⟨hP, hNext⟩ := hStep s hI i List.mem_cons_self
    exact ⟨hP, ih hNext fun s hs j hj => hStep s hs j (List.mem_cons_of_mem _ hj)⟩

/-- Steps that meet a condition do what is wanted, in the states of an invariant that they keep. -/
theorem Always.imp_of_invariant {P R : σ → ι → Prop} (I : σ → Prop)
    (hStep : ∀ s i, I s → P s i → R s i ∧ I (step s i)) {s : σ} (hI : I s) {inputs : List ι}
    (h : Always step P s inputs) : Always step R s inputs := by
  induction inputs generalizing s with
  | nil => trivial
  | cons i inputs ih =>
    obtain ⟨hR, hNext⟩ := hStep s i hI h.1
    exact ⟨hR, ih hNext h.2⟩

theorem Always.of_prefix {P : σ → ι → Prop} {s : σ} {before inputs : List ι}
    (h : Always step P s inputs) (hPrefix : before <+: inputs) : Always step P s before := by
  induction before generalizing s inputs with
  | nil => trivial
  | cons i before ih =>
    obtain ⟨later, rfl⟩ := hPrefix
    exact ⟨h.1, ih h.2 (List.prefix_append before later)⟩

theorem always_iff_forall_split {P : σ → ι → Prop} {s : σ} {inputs : List ι} :
    Always step P s inputs ↔
      ∀ before i later, inputs = before ++ i :: later → P (run step s before) i := by
  induction inputs generalizing s with
  | nil => simp [Always]
  | cons i inputs ih =>
    rw [Always, ih]
    constructor
    · rintro ⟨hFirst, hRest⟩ before j later hInputs
      cases before with
      | nil =>
        obtain ⟨rfl, _⟩ := List.cons.inj hInputs
        exact hFirst
      | cons _ before =>
        obtain ⟨rfl, hTail⟩ := List.cons.inj hInputs
        exact hRest before j later hTail
    · intro h
      exact ⟨h [] i inputs rfl, fun before j later hInputs =>
        h (i :: before) j later (congrArg (i :: ·) hInputs)⟩

/-- Where, in every state that satisfies the invariant `I` and the property `Q`, a step does `R`
exactly when it meets `P`, and doing `R` keeps `Q`, the runs whose steps all do `R` are the
runs whose steps all meet `P`: the first step that misses the one misses the other. -/
theorem always_iff_always (I Q : σ → Prop) {R P : σ → ι → Prop}
    (hInv : ∀ s i, I s → I (step s i)) (hKeep : ∀ s i, I s → Q s → R s i → Q (step s i))
    (hIff : ∀ s i, I s → Q s → (R s i ↔ P s i)) {s : σ} (hI : I s) (hQ : Q s) (inputs : List ι) :
    Always step R s inputs ↔ Always step P s inputs := by
  induction inputs generalizing s with
  | nil => exact Iff.rfl
  | cons i inputs ih =>
    simp only [Always]
    rw [hIff s i hI hQ]
    apply and_congr_right
    intro hP
    have hR : R s i := (hIff s i hI hQ).mpr hP
    exact ih (hInv s i hI) (hKeep s i hI hQ hR)

/-- A property that a step keeps exactly when it meets a condition, and that no step regains,
holds after the runs whose steps all meet the condition. -/
theorem run_iff_always (I Q : σ → Prop) {P : σ → ι → Prop} (hInv : ∀ s i, I s → I (step s i))
    (hIff : ∀ s i, I s → (Q (step s i) ↔ Q s ∧ P s i)) {s : σ} (hI : I s) (inputs : List ι) :
    Q (run step s inputs) ↔ Q s ∧ Always step P s inputs := by
  induction inputs generalizing s with
  | nil => simp [Always]
  | cons i inputs ih => rw [run_cons, ih (hInv s i hI), hIff s i hI, and_assoc, Always]

/-! ### Progress -/

/-- Some inputs of those allowed lead to a state with a property. -/
def Reaches (step : σ → ι → σ) (allowed : ι → Prop) (s : σ) (P : σ → Prop) : Prop :=
  ∃ inputs, (∀ i ∈ inputs, allowed i) ∧ P (run step s inputs)

namespace Reaches

variable {allowed : ι → Prop} {s : σ} {P Q : σ → Prop}

theorem here (h : P s) : Reaches step allowed s P := ⟨[], by simp, h⟩

theorem turn {i : ι} (hi : allowed i) (h : Reaches step allowed (step s i) P) :
    Reaches step allowed s P := by
  obtain ⟨inputs, hInputs, hEnd⟩ := h
  exact ⟨i :: inputs, List.forall_mem_cons.mpr ⟨hi, hInputs⟩, hEnd⟩

theorem trans (h : Reaches step allowed s P) (hNext : ∀ t, P t → Reaches step allowed t Q) :
    Reaches step allowed s Q := by
  obtain ⟨before, hBefore, hMiddle⟩ := h
  obtain ⟨after, hAfter, hEnd⟩ := hNext _ hMiddle
  refine ⟨before ++ after, List.forall_mem_append.mpr ⟨hBefore, hAfter⟩, ?_⟩
  rwa [run_append]

/-- What the allowed inputs keep holds where they lead. -/
theorem keeps (I : σ → Prop) (hKeep : ∀ s i, I s → allowed i → I (step s i)) (hI : I s)
    (h : Reaches step allowed s P) : Reaches step allowed s fun t => I t ∧ P t := by
  obtain ⟨inputs, hInputs, hEnd⟩ := h
  exact ⟨inputs, hInputs, run_invariant_of_mem I hI fun s hs i hi => hKeep s i hs (hInputs i hi), hEnd⟩

/-- Where an invariant leaves an allowed input that makes a measure less, or the property, the property
is reached. -/
theorem of_measure (I : σ → Prop) (measure : σ → ℕ)
    (hTurn : ∀ s, I s → P s ∨ ∃ i, allowed i ∧ I (step s i) ∧ measure (step s i) < measure s)
    (hI : I s) : Reaches step allowed s P := by
  induction hMeasure : measure s using Nat.strong_induction_on generalizing s with
  | _ n ih =>
    obtain hHere | ⟨i, hi, hNext, hLess⟩ := hTurn s hI
    · exact here hHere
    · exact turn hi (ih _ (hMeasure ▸ hLess) hNext rfl)

end Reaches

/-! ### Amounts summed along a run -/

section Total

variable {M : Type w} [AddMonoid M]

/-- The sum of what the steps of a run amount to, each in the state it starts from. -/
def total (step : σ → ι → σ) (amount : σ → ι → M) : σ → List ι → M
  | _, [] => 0
  | s, i :: inputs => amount s i + total step amount (step s i) inputs

@[simp] theorem total_nil (amount : σ → ι → M) (s : σ) : total step amount s [] = 0 := rfl

@[simp] theorem total_cons (amount : σ → ι → M) (s : σ) (i : ι) (inputs : List ι) :
    total step amount s (i :: inputs) = amount s i + total step amount (step s i) inputs := rfl

theorem total_append (amount : σ → ι → M) (s : σ) (before after : List ι) :
    total step amount s (before ++ after) =
      total step amount s before + total step amount (run step s before) after := by
  induction before generalizing s with
  | nil => exact (zero_add _).symm
  | cons i before ih => rw [List.cons_append, total_cons, total_cons, ih, add_assoc, run_cons]

/-- Where every step changes a quantity by its amount, a run changes it by the sum of them. -/
theorem run_balance (I : σ → Prop) (quantity : σ → M) (amount : σ → ι → M) {s : σ} (hI : I s)
    {inputs : List ι} (hStep : ∀ s, I s → ∀ i ∈ inputs,
      I (step s i) ∧ quantity (step s i) = quantity s + amount s i) :
    quantity (run step s inputs) = quantity s + total step amount s inputs := by
  induction inputs generalizing s with
  | nil => exact (add_zero _).symm
  | cons i inputs ih =>
    obtain ⟨hNext, hAmount⟩ := hStep s hI i List.mem_cons_self
    rw [run_cons, ih hNext fun s hs j hj => hStep s hs j (List.mem_cons_of_mem _ hj), hAmount,
      total_cons, add_assoc]

end Total

end Runs
