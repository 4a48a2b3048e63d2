import Mathlib.Algebra.BigOperators.Group.List.Basic
import Mathlib.Data.List.Infix
import Mathlib.Order.Bounds.Basic

/-!
# Streaks and partial sums

The figures that a loop keeps of the entries it has passed: how long the longest contiguous part
is whose entries all pass a test, and which partial sum is the greatest and which the least.
Each is determined, one entry later, by what it was before.
-/

namespace Streaks

universe u

variable {α : Type u}

/-- The lengths of the contiguous parts whose entries all pass. -/
def streaks (p : α → Prop) (l : List α) : Set ℕ :=
  {n | ∃ part, part <:+: l ∧ (∀ a ∈ part, p a) ∧ part.length = n}

/-- The lengths of those that reach to the end. -/
def trailing (p : α → Prop) (l : List α) : Set ℕ :=
  {n | ∃ part, part <:+ l ∧ (∀ a ∈ part, p a) ∧ part.length = n}

variable {p : α → Prop} {l : List α} {a : α} {n : ℕ}

theorem streaks_nil (p : α → Prop) : IsGreatest (streaks p []) 0 := by
  constructor
  · exact ⟨[], List.infix_rfl, by simp, rfl⟩
  · rintro n ⟨part, hPart, _, rfl⟩
    rw [List.infix_nil.mp hPart]
    exact le_rfl

theorem trailing_nil (p : α → Prop) : IsGreatest (trailing p []) 0 := by
  constructor
  · exact ⟨[], List.suffix_rfl, by simp, rfl⟩
  · rintro n ⟨part, hPart, _, rfl⟩
    rw [List.suffix_nil.mp hPart]
    exact le_rfl

/-- The parts of a longer list that are not parts of the shorter one reach to its end. -/
theorem streaks_concat (p : α → Prop) (l : List α) (a : α) :
    streaks p (l ++ [a]) = trailing p (l ++ [a]) ∪ streaks p l := by
  ext n
  constructor
  · rintro ⟨part, hPart, hPass, rfl⟩
    rcases List.infix_concat_iff.mp hPart with hSuffix | hInfix
    · exact .inl ⟨part, hSuffix, hPass, rfl⟩
    · exact .inr ⟨part, hInfix, hPass, rfl⟩
  · rintro (⟨part, hSuffix, hPass, rfl⟩ | ⟨part, hInfix, hPass, rfl⟩)
    · exact ⟨part, hSuffix.isInfix, hPass, rfl⟩
    · exact ⟨part, List.infix_concat_iff.mpr (.inr hInfix), hPass, rfl⟩

theorem trailing_concat_of_pass (h : IsGreatest (trailing p l) n) (ha : p a) :
    IsGreatest (trailing p (l ++ [a])) (n + 1) := by
  obtain ⟨⟨part, hSuffix, hPass, hLength⟩, hMax⟩ := h
  constructor
  · refine ⟨part ++ [a], List.suffix_append_inj_of_length_eq rfl |>.mpr ⟨hSuffix, rfl⟩, ?_, ?_⟩
    · intro b hb
      rcases List.mem_append.mp hb with hb | hb
      · exact hPass b hb
      · obtain rfl := List.mem_singleton.mp hb
        exact ha
    · rw [List.length_append, hLength]
      rfl
  · rintro m ⟨part', hSuffix', hPass', rfl⟩
    rcases List.suffix_concat_iff.mp hSuffix' with rfl | ⟨front, rfl, hFront⟩
    · exact Nat.zero_le _
    · rw [List.length_append]
      apply Nat.succ_le_succ
      exact hMax ⟨front, hFront, fun b hb => hPass' b (List.mem_append_left _ hb), rfl⟩

theorem trailing_concat_of_fail (l : List α) (ha : ¬ p a) : IsGreatest (trailing p (l ++ [a])) 0 := by
  constructor
  · exact ⟨[], List.nil_suffix, by simp, rfl⟩
  · rintro m ⟨part, hSuffix, hPass, rfl⟩
    rcases List.suffix_concat_iff.mp hSuffix with rfl | ⟨front, rfl, _⟩
    · exact le_rfl
    · exact absurd (hPass a (by simp)) ha

theorem streaks_concat_of_pass {longest : ℕ} (hTrailing : IsGreatest (trailing p l) n)
    (hStreaks : IsGreatest (streaks p l) longest) (ha : p a) :
    IsGreatest (streaks p (l ++ [a])) (max (n + 1) longest) := by
  rw [streaks_concat]
  exact (trailing_concat_of_pass hTrailing ha).union hStreaks

theorem streaks_concat_of_fail {longest : ℕ} (hStreaks : IsGreatest (streaks p l) longest)
    (ha : ¬ p a) : IsGreatest (streaks p (l ++ [a])) longest := by
  have hUnion := (trailing_concat_of_fail l ha).union hStreaks
  rw [← streaks_concat, Nat.max_eq_right (Nat.zero_le _)] at hUnion
  exact hUnion

/-! ### Partial sums -/

variable {M : Type u} [AddMonoid M]

/-- The sums of the first entries, that of no entry included. -/
def partialSums (l : List M) : Set M := {x | ∃ before, before <+: l ∧ before.sum = x}

theorem partialSums_nil : partialSums ([] : List M) = {0} := by
  ext x
  constructor
  · rintro ⟨before, hPrefix, rfl⟩
    rw [List.prefix_nil.mp hPrefix]
    rfl
  · rintro rfl
    exact ⟨[], List.prefix_rfl, rfl⟩

theorem partialSums_concat (l : List M) (x : M) :
    partialSums (l ++ [x]) = insert (l.sum + x) (partialSums l) := by
  ext y
  constructor
  · rintro ⟨before, hPrefix, rfl⟩
    rcases List.prefix_concat_iff.mp hPrefix with rfl | hPrefix
    · exact .inl (by simp)
    · exact .inr ⟨before, hPrefix, rfl⟩
  · rintro (rfl | ⟨before, hPrefix, rfl⟩)
    · exact ⟨l ++ [x], List.prefix_rfl, by simp⟩
    · exact ⟨before, hPrefix.trans (List.prefix_append _ _), rfl⟩

end Streaks
