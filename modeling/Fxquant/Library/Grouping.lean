import Mathlib.Data.List.Induction
import Mathlib.Data.List.SplitBy
import Mathlib.Order.Basic

/-!
# Consecutive groups of a keyed list

The maximal groups of consecutive elements with one key, as `List.splitBy` makes them. A new
element at the end either joins the last group or opens the next one, which is what a program
that aggregates a stream does. Where the keys ascend, the groups are in the strict order of
their keys.
-/

namespace Grouping

universe u v

variable {α : Type u} {κ : Type v} [DecidableEq κ] {key : α → κ}

def groups (key : α → κ) (l : List α) : List (List α) := l.splitBy fun a b => key a = key b

@[simp] theorem groups_nil : groups key [] = [] := rfl

theorem groups_singleton (a : α) : groups key [a] = [[a]] := rfl

theorem flatten_groups (key : α → κ) (l : List α) : (groups key l).flatten = l := List.flatten_splitBy _ l

theorem ne_nil_of_mem {l g : List α} (h : g ∈ groups key l) : g ≠ [] :=
  List.ne_nil_of_mem_splitBy h

theorem mem_of_mem {l g : List α} (h : g ∈ groups key l) {a : α} (ha : a ∈ g) : a ∈ l := by
  rw [← flatten_groups key l]
  exact List.mem_flatten.mpr ⟨g, h, ha⟩

theorem groups_eq_nil_iff {l : List α} : groups key l = [] ↔ l = [] := List.splitBy_eq_nil

theorem groups_eq_concat (key : α → κ) {l : List α} (h : l ≠ []) : ∃ init g, groups key l = init ++ [g] :=
  (List.eq_nil_or_concat' _).resolve_left fun hNil => h (groups_eq_nil_iff.mp hNil)

theorem key_eq {l g : List α} (h : g ∈ groups key l) {a b : α} (ha : a ∈ g) (hb : b ∈ g) :
    key a = key b := by
  have hChain : (g.map key).IsChain (· = ·) := by
    simpa [List.isChain_map] using List.isChain_of_mem_splitBy h
  have hAll : (g.map key).Pairwise (· = ·) := List.isChain_iff_pairwise.mp hChain
  exact hAll.forall_of_forall (fun _ _ => rfl) (List.mem_map_of_mem ha) (List.mem_map_of_mem hb)

/-! ### One element more -/

theorem groups_concat_of_eq {l g : List α} {init : List (List α)} {a b : α}
    (h : groups key l = init ++ [g]) (hb : b ∈ g) (hKey : key b = key a) :
    groups key (l ++ [a]) = init ++ [g ++ [a]] := by
  have hMem : g ∈ groups key l := by simp [h]
  obtain ⟨hFlat, hNil, hChain, hBorders⟩ := List.splitBy_eq_iff.mp h
  apply List.splitBy_eq_iff.mpr
  refine ⟨?_, ?_, ?_, ?_⟩
  · rw [hFlat]
    simp
  · simp only [List.mem_append, List.mem_singleton] at hNil ⊢
    rintro (hInit | hLast)
    · exact hNil (.inl hInit)
    · exact List.append_ne_nil_of_right_ne_nil g (List.cons_ne_nil a []) hLast.symm
  · intro m hm
    cases List.mem_append.mp hm with
    | inl hm =>
      exact hChain m (List.mem_append_left _ hm)
    | inr hm =>
      rw [List.mem_singleton.mp hm]
      refine List.isChain_append.mpr ⟨hChain g (by simp), List.isChain_singleton _, ?_⟩
      intro x hx y hy
      have hxg : x ∈ g := List.mem_of_mem_getLast? hx
      have hEq : key x = key a := (key_eq hMem hxg hb).trans hKey
      simpa [← Option.some.inj hy] using hEq
  · rw [List.isChain_append] at hBorders ⊢
    refine ⟨hBorders.1, List.isChain_singleton _, ?_⟩
    intro x hx y hy
    obtain ⟨hx', hg', hDiff⟩ := hBorders.2.2 x hx g rfl
    cases Option.some.inj hy
    refine ⟨hx', by simp, ?_⟩
    rw [List.head_append_of_ne_nil hg']
    exact hDiff

theorem groups_concat_of_ne {l g : List α} {init : List (List α)} {a b : α}
    (h : groups key l = init ++ [g]) (hb : b ∈ g) (hKey : key b ≠ key a) :
    groups key (l ++ [a]) = init ++ [g] ++ [[a]] := by
  have hMem : g ∈ groups key l := by simp [h]
  rw [groups, List.splitBy_append_cons [], ← groups, h]
  · rfl
  · intro x hx
    have hLast : l.getLast? = g.getLast? := by
      have hNe := ne_nil_of_mem hMem
      rw [← flatten_groups key l, h]
      simp [List.getLast?_append, List.getLast?_eq_some_getLast hNe]
    have hxg : x ∈ g := List.mem_of_mem_getLast? (hLast ▸ hx)
    simpa [key_eq hMem hxg hb] using hKey

theorem groups_append (key : α → κ) {l m : List α} (h : ∀ a ∈ l, ∀ b ∈ m, key a ≠ key b) :
    groups key (l ++ m) = groups key l ++ groups key m := by
  apply List.splitBy_append
  intro a ha b hb
  rw [decide_eq_false_iff_not]
  exact h a (List.mem_of_mem_getLast? ha) b (List.mem_of_mem_head? hb)

theorem groups_init {l g : List α} {init : List (List α)} (h : groups key l = init ++ [g]) :
    l = init.flatten ++ g ∧ groups key init.flatten = init := by
  obtain ⟨hFlat, hNil, hChain, hBorders⟩ := List.splitBy_eq_iff.mp h
  constructor
  · rw [hFlat, List.flatten_append, List.flatten_singleton]
  · apply List.splitBy_flatten
    · intro hMem
      exact hNil (List.mem_append_left _ hMem)
    · intro m hm
      exact hChain m (List.mem_append_left _ hm)
    · exact (List.isChain_append.mp hBorders).1

/-! ### Ascending keys -/

section Ascending

variable [PartialOrder κ]

theorem groups_pairwise_lt {l : List α} (h : l.Pairwise fun a b => key a ≤ key b) :
    (groups key l).Pairwise fun g g' => ∀ x ∈ g, ∀ y ∈ g', key x < key y := by
  induction l using List.reverseRecOn with
  | nil => exact List.Pairwise.nil
  | append_singleton l a ih =>
    obtain ⟨hInit, _, hLe⟩ := List.pairwise_append.mp h
    cases eq_or_ne l [] with
    | inl hNil =>
      rw [hNil]
      exact List.pairwise_singleton _ _
    | inr hNe =>
      obtain ⟨init, g, hGroups⟩ := groups_eq_concat key hNe
      have hMem : g ∈ groups key l := by simp [hGroups]
      obtain ⟨b, hb⟩ := List.exists_mem_of_ne_nil g (ne_nil_of_mem hMem)
      have hOld := ih hInit
      rw [hGroups] at hOld
      have hBefore := (List.pairwise_append.mp hOld).2.2
      have hLast : key b ≤ key a := hLe b (mem_of_mem hMem hb) a List.mem_cons_self
      by_cases hKey : key b = key a
      · rw [groups_concat_of_eq hGroups hb hKey]
        refine List.pairwise_append.mpr
          ⟨(List.pairwise_append.mp hOld).1, List.pairwise_singleton _ _, ?_⟩
        intro m hm m' hm' x hx y hy
        rw [List.mem_singleton.mp hm'] at hy
        cases List.mem_append.mp hy with
        | inl hy =>
          exact hBefore m hm g List.mem_cons_self x hx y hy
        | inr hy =>
          rw [List.mem_singleton.mp hy, ← hKey]
          exact hBefore m hm g List.mem_cons_self x hx b hb
      · rw [groups_concat_of_ne hGroups hb hKey]
        refine List.pairwise_append.mpr ⟨hOld, List.pairwise_singleton _ _, ?_⟩
        intro m hm m' hm' x hx y hy
        rw [List.mem_singleton.mp hm', List.mem_singleton] at hy
        have hxb : key x ≤ key b := by
          cases List.mem_append.mp hm with
          | inl hm =>
            exact (hBefore m hm g List.mem_cons_self x hx b hb).le
          | inr hm =>
            rw [List.mem_singleton.mp hm] at hx
            exact (key_eq hMem hx hb).le
        rw [hy]
        exact lt_of_le_of_lt hxb (lt_of_le_of_ne hLast hKey)

end Ascending

end Grouping
