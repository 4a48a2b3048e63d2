import Mathlib.Order.Lattice

/-!
# Stable sorting by a key

The list is sorted by the comparison `key a < key b` and elements with equal keys keep their order, so
the last element of the result is the last of the greatest ones of the list.
-/

namespace StableSort

universe u v

variable {α : Type u} {κ : Type v} [LinearOrder κ] {key : α → κ} {l : List α} {a b : α}

/-- A sort with this comparison moves nothing where neither element is less. -/
def sortBy (key : α → κ) (l : List α) : List α := l.mergeSort fun a b => !decide (key b < key a)

/-- The element is greater than those after it, and not less than those before it. -/
def IsLastMax (key : α → κ) (l : List α) (a : α) : Prop :=
  ∃ before after, l = before ++ a :: after ∧ (∀ b ∈ before, key b ≤ key a) ∧
    ∀ b ∈ after, key b < key a

theorem IsLastMax.mem (h : IsLastMax key l a) : a ∈ l := by
  obtain ⟨before, after, rfl, _⟩ := h
  simp

theorem IsLastMax.congr {κ' : Type*} [LinearOrder κ'] {key' : α → κ'}
    (hLe : ∀ a ∈ l, ∀ b ∈ l, key' a ≤ key' b ↔ key a ≤ key b) :
    IsLastMax key' l a ↔ IsLastMax key l a := by
  apply exists_congr
  intro before
  apply exists_congr
  intro after
  apply and_congr_right
  rintro rfl
  have hSelf : a ∈ before ++ a :: after := by simp
  constructor
  · rintro ⟨hBefore, hAfter⟩
    constructor
    · intro b hb
      exact (hLe b (by simp [hb]) a hSelf).mp (hBefore b hb)
    · intro b hb
      exact lt_of_not_ge (mt (hLe a hSelf b (by simp [hb])).mpr (hAfter b hb).not_ge)
  · rintro ⟨hBefore, hAfter⟩
    constructor
    · intro b hb
      exact (hLe b (by simp [hb]) a hSelf).mpr (hBefore b hb)
    · intro b hb
      exact lt_of_not_ge (mt (hLe a hSelf b (by simp [hb])).mp (hAfter b hb).not_ge)

theorem sortBy_perm (key : α → κ) (l : List α) : (sortBy key l).Perm l := List.mergeSort_perm l _

theorem notLess_trans (a b c : α) (hab : (!decide (key b < key a)) = true)
    (hbc : (!decide (key c < key b)) = true) : (!decide (key c < key a)) = true := by
  simp only [Bool.not_eq_true', decide_eq_false_iff_not, not_lt] at hab hbc ⊢
  exact hab.trans hbc

theorem notLess_total (a b : α) : (!decide (key b < key a) || !decide (key a < key b)) = true := by
  simp only [Bool.or_eq_true, Bool.not_eq_true', decide_eq_false_iff_not, not_lt]
  exact le_total _ _

theorem sortBy_sorted (key : α → κ) (l : List α) :
    (sortBy key l).Pairwise fun a b => key a ≤ key b := by
  have hSorted : (sortBy key l).Pairwise fun a b => (!decide (key b < key a)) = true :=
    List.pairwise_mergeSort notLess_trans notLess_total l
  apply hSorted.imp
  intro a b hab
  simpa using hab

theorem pair_sublist_sortBy (hKey : key a ≤ key b) (h : List.Sublist [a, b] l) :
    List.Sublist [a, b] (sortBy key l) :=
  List.pair_sublist_mergeSort notLess_trans notLess_total (by simpa using hKey) h

theorem not_pair_sublist_of_last (hNodup : l.Nodup) (hLast : l.getLast? = some a) :
    ¬ List.Sublist [a, b] l := by
  intro hPair
  obtain ⟨init, rfl⟩ := List.getLast?_eq_some_iff.mp hLast
  obtain ⟨l₁, l₂, hSplit, hInit, hEnd⟩ := List.sublist_append_iff.mp hPair
  have hFresh : a ∉ init := by
    intro hMem
    have hDisjoint := (List.nodup_append.mp hNodup).2.2
    exact hDisjoint a hMem a (List.mem_singleton_self a) rfl
  cases l₁ with
  | nil =>
    have hLength := hEnd.length_le
    rw [← List.nil_append l₂, ← hSplit] at hLength
    simp at hLength
  | cons c l₁ =>
    obtain ⟨rfl, _⟩ := List.cons.inj hSplit
    exact hFresh (hInit.subset List.mem_cons_self)

theorem le_getLast?_sortBy (hLast : (sortBy key l).getLast? = some a) (hb : b ∈ l) :
    key b ≤ key a := by
  obtain ⟨init, hSplit⟩ := List.getLast?_eq_some_iff.mp hLast
  have hSorted := sortBy_sorted key l
  rw [hSplit] at hSorted
  have hMem : b ∈ init ++ [a] := hSplit ▸ (sortBy_perm key l).mem_iff.mpr hb
  cases List.mem_append.mp hMem with
  | inl hInit => exact (List.pairwise_append.mp hSorted).2.2 b hInit a List.mem_cons_self
  | inr hEnd => rw [List.mem_singleton.mp hEnd]

theorem exists_getLast?_sortBy (key : α → κ) (h : l ≠ []) :
    ∃ a ∈ l, (sortBy key l).getLast? = some a := by
  have hNe : sortBy key l ≠ [] := by
    intro hNil
    have hPerm := sortBy_perm key l
    rw [hNil] at hPerm
    exact h hPerm.symm.eq_nil
  obtain ⟨a, hLast⟩ := Option.isSome_iff_exists.mp (List.getLast?_isSome.mpr hNe)
  exact ⟨a, (sortBy_perm key l).mem_iff.mp (List.mem_of_getLast? hLast), hLast⟩

/-- What comes after the last element in the list is less, as the sort would not move it before. -/
theorem isLastMax_of_getLast? (hNodup : l.Nodup) (hLast : (sortBy key l).getLast? = some a) :
    IsLastMax key l a := by
  have hSortedNodup : (sortBy key l).Nodup := (sortBy_perm key l).nodup_iff.mpr hNodup
  have hMem : a ∈ l := (sortBy_perm key l).mem_iff.mp (List.mem_of_getLast? hLast)
  obtain ⟨before, after, hSplit⟩ := List.append_of_mem hMem
  refine ⟨before, after, hSplit, ?_, ?_⟩
  · intro b hb
    exact le_getLast?_sortBy hLast (by simp [hSplit, hb])
  · intro b hb
    by_contra hLe
    have hPair : List.Sublist [a, b] l := by
      rw [hSplit]
      apply List.Sublist.trans _ (List.sublist_append_right before (a :: after))
      exact List.Sublist.cons_cons a (List.singleton_sublist.mpr hb)
    exact not_pair_sublist_of_last hSortedNodup hLast
      (pair_sublist_sortBy (not_lt.mp hLe) hPair)

theorem IsLastMax.getLast? (h : IsLastMax key l a) (hNodup : l.Nodup) :
    (sortBy key l).getLast? = some a := by
  have hSortedNodup : (sortBy key l).Nodup := (sortBy_perm key l).nodup_iff.mpr hNodup
  obtain ⟨before, after, hSplit, hBefore, hAfter⟩ := h
  obtain ⟨z, hMem, hLast⟩ := exists_getLast?_sortBy (l := l) key (by simp [hSplit])
  rw [hSplit] at hMem
  obtain hEarly | hRest := List.mem_append.mp hMem
  · have hPair : List.Sublist [z, a] l := by
      rw [hSplit]
      apply List.Sublist.append (List.singleton_sublist.mpr hEarly)
      exact List.singleton_sublist.mpr List.mem_cons_self
    exact absurd (pair_sublist_sortBy (hBefore z hEarly) hPair)
      (not_pair_sublist_of_last hSortedNodup hLast)
  · obtain rfl | hLater := List.mem_cons.mp hRest
    · exact hLast
    · exact absurd (le_getLast?_sortBy hLast (by simp [hSplit])) (hAfter z hLater).not_ge

theorem getLast?_sortBy_iff (hNodup : l.Nodup) :
    (sortBy key l).getLast? = some a ↔ IsLastMax key l a :=
  ⟨isLastMax_of_getLast? hNodup, fun h => h.getLast? hNodup⟩

end StableSort
