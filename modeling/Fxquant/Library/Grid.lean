import Mathlib.Data.List.ProdSigma
import Mathlib.Data.Prod.Lex
import Mathlib.Tactic.Linarith
import Mathlib.Tactic.Ring

/-!
# Grids

Two nested loops over arithmetic progressions, taken apart into one step of two counters: the inner
counter goes up until it passes its end, and then starts again while the outer one goes up.
-/

namespace Grid

/-- What a counter runs through from `x` on. -/
def progression (step stop x : ℤ) : List ℤ :=
  (List.range ((stop - x) / step + 1).toNat).map fun k : ℕ => x + k * step

def pairs (outer inner : List ℤ) : List (ℤ × ℤ) := outer ×ˢ inner

section Progression

variable {step stop x : ℤ}

theorem progression_of_lt (hStep : 0 < step) (h : stop < x) : progression step stop x = [] := by
  have hNeg : (stop - x) / step < 0 := Int.ediv_neg_of_neg_of_pos (by omega) hStep
  have hNone : ((stop - x) / step + 1).toNat = 0 := by omega
  rw [progression, hNone]
  rfl

theorem progression_of_le (hStep : 0 < step) (h : x ≤ stop) :
    progression step stop x = x :: progression step stop (x + step) := by
  have hDiv : (stop - (x + step)) / step = (stop - x) / step - 1 := by
    have hSplit : stop - (x + step) = stop - x + (-1) * step := by ring
    rw [hSplit, Int.add_mul_ediv_right _ _ hStep.ne']
    rfl
  have hNonneg : 0 ≤ (stop - x) / step := Int.ediv_nonneg (by omega) hStep.le
  have hLength : ((stop - x) / step + 1).toNat = ((stop - (x + step)) / step + 1).toNat + 1 := by
    rw [hDiv]
    omega
  rw [progression, hLength, List.range_succ_eq_map, List.map_cons, List.map_map, progression]
  congr 1
  · ring
  · apply List.map_congr_left
    intro k _
    simp only [Function.comp, Nat.succ_eq_add_one, Nat.cast_add, Nat.cast_one]
    ring

theorem mem_progression_iff (hStep : 0 < step) {a : ℤ} :
    a ∈ progression step stop x ↔ x ≤ a ∧ a ≤ stop ∧ step ∣ a - x := by
  rw [progression, List.mem_map]
  constructor
  · rintro ⟨k, hk, rfl⟩
    have hLe : (k : ℤ) ≤ (stop - x) / step := by
      have hLt := List.mem_range.mp hk
      omega
    have hMul : (k : ℤ) * step ≤ stop - x :=
      (mul_le_mul_of_nonneg_right hLe hStep.le).trans (Int.ediv_mul_le _ hStep.ne')
    have hNonneg : 0 ≤ (k : ℤ) * step := mul_nonneg (Int.natCast_nonneg k) hStep.le
    refine ⟨by omega, by omega, ?_⟩
    rw [add_sub_cancel_left]
    exact dvd_mul_left step k
  · rintro ⟨hLow, hHigh, k, hk⟩
    have hNonneg : 0 ≤ k := by
      by_contra hNeg
      have hLt : step * k < 0 := mul_neg_of_pos_of_neg hStep (not_le.mp hNeg)
      omega
    have hLe : k ≤ (stop - x) / step := by
      apply Int.le_ediv_of_mul_le hStep
      rw [mul_comm]
      omega
    refine ⟨k.toNat, List.mem_range.mpr (by omega), ?_⟩
    rw [Int.toNat_of_nonneg hNonneg, mul_comm]
    omega

theorem progression_sorted (hStep : 0 < step) : (progression step stop x).Pairwise (· < ·) := by
  rw [progression, List.pairwise_map]
  apply List.pairwise_lt_range.imp
  intro a b hLt
  have hCast : (a : ℤ) < b := by exact_mod_cast hLt
  have hMul : (a : ℤ) * step < b * step := mul_lt_mul_of_pos_right hCast hStep
  omega

end Progression

theorem pairs_sorted {outer inner : List ℤ} (hOuter : outer.Pairwise (· < ·))
    (hInner : inner.Pairwise (· < ·)) :
    (pairs outer inner).Pairwise (Prod.Lex (· < ·) (· < ·)) := by
  induction outer with
  | nil => exact List.Pairwise.nil
  | cons x outer ih =>
    obtain ⟨hHead, hTail⟩ := List.pairwise_cons.mp hOuter
    rw [pairs, List.product_cons]
    refine List.pairwise_append.mpr ⟨?_, ih hTail, ?_⟩
    · rw [List.pairwise_map]
      exact hInner.imp fun hLt => Prod.Lex.right x hLt
    · rintro ⟨a, b⟩ hRow ⟨a', b'⟩ hRest
      obtain ⟨y, _, hy⟩ := List.mem_map.mp hRow
      obtain ⟨rfl, rfl⟩ := Prod.mk.inj hy
      exact Prod.Lex.left _ _ (hHead a' (List.mem_product.mp hRest).1)

/-! ### The counters -/

/-- The ends and steps of the two counters; each begins below its end. -/
structure Bounds where
  outerStart : ℤ
  outerStop : ℤ
  outerStep : ℤ
  innerStart : ℤ
  innerStop : ℤ
  innerStep : ℤ
  outerStep_pos : 0 < outerStep
  innerStep_pos : 0 < innerStep
  innerStart_le : innerStart ≤ innerStop

namespace Bounds

variable (b : Bounds)

def outerFrom (x : ℤ) : List ℤ := progression b.outerStep b.outerStop x

def innerFrom (y : ℤ) : List ℤ := progression b.innerStep b.innerStop y

def all : List (ℤ × ℤ) := pairs (b.outerFrom b.outerStart) (b.innerFrom b.innerStart)

def next (s : ℤ × ℤ) : ℤ × ℤ :=
  if b.innerStop < s.2 + b.innerStep then (s.1 + b.outerStep, b.innerStart)
  else (s.1, s.2 + b.innerStep)

/-- The pairs that are still to come, with the counters at `s`. -/
def remaining (s : ℤ × ℤ) : List (ℤ × ℤ) :=
  if s.1 ≤ b.outerStop then
    (b.innerFrom s.2).map (Prod.mk s.1) ++
      pairs (b.outerFrom (s.1 + b.outerStep)) (b.innerFrom b.innerStart)
  else []

/-- At the start of a row, the rest is rows. -/
theorem remaining_row (x : ℤ) :
    b.remaining (x, b.innerStart) = pairs (b.outerFrom x) (b.innerFrom b.innerStart) := by
  by_cases hLe : x ≤ b.outerStop
  · have hRows : b.outerFrom x = x :: b.outerFrom (x + b.outerStep) :=
      progression_of_le b.outerStep_pos hLe
    rw [remaining, if_pos hLe, hRows, pairs, pairs, List.product_cons]
  · have hNone : b.outerFrom x = [] := progression_of_lt b.outerStep_pos (not_le.mp hLe)
    rw [remaining, if_neg hLe, hNone]
    rfl

theorem remaining_of_lt {s : ℤ × ℤ} (h : b.outerStop < s.1) : b.remaining s = [] :=
  if_neg h.not_ge

/-- One step of the counters takes the first of the pairs to come. -/
theorem remaining_eq_cons {s : ℤ × ℤ} (h : s.1 ≤ b.outerStop) (h' : s.2 ≤ b.innerStop) :
    b.remaining s = s :: b.remaining (b.next s) := by
  obtain ⟨x, y⟩ := s
  rw [remaining, if_pos h, innerFrom, progression_of_le b.innerStep_pos h', List.map_cons,
    List.cons_append]
  refine congrArg ((x, y) :: ·) ?_
  rw [next]
  split
  · rename_i hPast
    rw [progression_of_lt b.innerStep_pos hPast, remaining_row]
    rfl
  · rw [remaining, if_pos h]
    rfl

end Bounds

end Grid
