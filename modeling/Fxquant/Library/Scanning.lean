import Mathlib.Data.List.Infix
import Mathlib.Data.List.TakeWhile

/-!
# Scanning

Cutting a list at the first occurrence of a pattern, and at the end of a run.
-/

namespace Scanning

universe u

variable {α : Type u}

/-- What stands before the first occurrence of the pattern, and what stands after it. -/
def splitFirst [DecidableEq α] (pattern : List α) : List α → Option (List α × List α)
  | [] => if pattern = [] then some ([], []) else none
  | c :: s =>
    if pattern <+: c :: s then some ([], (c :: s).drop pattern.length)
    else (splitFirst pattern s).map fun (before, after) => (c :: before, after)

theorem splitFirst_eq_some [DecidableEq α] {pattern s before after : List α}
    (h : splitFirst pattern s = some (before, after)) : s = before ++ pattern ++ after := by
  induction s generalizing before with
  | nil =>
    rw [splitFirst] at h
    split at h
    · rename_i hNil
      cases h
      rw [hNil]
      rfl
    · cases h
  | cons c s ih =>
    rw [splitFirst] at h
    split at h
    · rename_i hPrefix
      cases h
      exact (List.prefix_iff_eq_append.mp hPrefix).symm
    · obtain ⟨⟨before', after'⟩, hRest, hEq⟩ := Option.map_eq_some_iff.mp h
      cases hEq
      rw [ih hRest]
      rfl

theorem splitFirst_eq_none_iff [DecidableEq α] {pattern s : List α} :
    splitFirst pattern s = none ↔ ¬ pattern <:+: s := by
  induction s with
  | nil => simp [splitFirst]
  | cons c s ih =>
    rw [splitFirst, List.infix_cons_iff]
    split
    · rename_i hPrefix
      simp [hPrefix]
    · rename_i hPrefix
      simp [hPrefix, ih]

/-- The first occurrence stays the first one when more follows. -/
theorem splitFirst_append [DecidableEq α] {pattern s before after : List α}
    (h : splitFirst pattern s = some (before, after)) (t : List α) :
    splitFirst pattern (s ++ t) = some (before, after ++ t) := by
  induction s generalizing before with
  | nil =>
    rw [splitFirst] at h
    split at h
    · rename_i hNil
      cases h
      cases t <;> simp [splitFirst, hNil]
    · cases h
  | cons c s ih =>
    have hLength : pattern.length ≤ (c :: s).length := by
      rw [splitFirst_eq_some h, List.length_append, List.length_append]
      omega
    have hPrefix : pattern <+: c :: (s ++ t) ↔ pattern <+: c :: s := by
      constructor
      · exact fun hLong => List.prefix_of_prefix_length_le hLong (List.prefix_append (c :: s) t) hLength
      · exact fun hShort => hShort.trans (List.prefix_append (c :: s) t)
    rw [splitFirst] at h
    rw [List.cons_append, splitFirst]
    split at h
    · rename_i hHead
      cases h
      rw [if_pos (hPrefix.mpr hHead), ← List.cons_append, List.drop_append_of_le_length hLength]
    · rename_i hHead
      obtain ⟨⟨before', after'⟩, hRest, hEq⟩ := Option.map_eq_some_iff.mp h
      cases hEq
      rw [if_neg (mt hPrefix.mp hHead), ih hRest]
      rfl

/-- An occurrence that a chunk completes ends in the chunk. -/
theorem length_lt_of_splitFirst [DecidableEq α] {pattern s chunk before after : List α}
    (hNone : splitFirst pattern s = none)
    (h : splitFirst pattern (s ++ chunk) = some (before, after)) : after.length < chunk.length := by
  by_contra hLong
  have hEq := splitFirst_eq_some h
  have hPrefix : before ++ pattern <+: s := by
    have hWhole : before ++ pattern <+: s ++ chunk := ⟨after, hEq.symm⟩
    apply List.prefix_of_prefix_length_le hWhole (List.prefix_append s chunk)
    have hLength := congrArg List.length hEq
    simp only [List.length_append] at hLength ⊢
    omega
  exact splitFirst_eq_none_iff.mp hNone
    ((List.suffix_append before pattern).isInfix.trans hPrefix.isInfix)

/-! ### Where no occurrence begins -/

section

variable [DecidableEq α] {pattern : List α}

/-- The pattern does not begin in `w`, whatever follows. -/
def Skips (pattern w : List α) : Prop :=
  ∀ s, splitFirst pattern (w ++ s) =
    (splitFirst pattern s).map fun (before, after) => (w ++ before, after)

theorem Skips.nil : Skips pattern [] := by
  intro s
  simp

theorem Skips.append {w w' : List α} (h : Skips pattern w) (h' : Skips pattern w') :
    Skips pattern (w ++ w') := by
  intro s
  rw [List.append_assoc, h, h', Option.map_map]
  simp [Function.comp_def]

theorem Skips.cons {c : α} {w : List α} (h : Skips pattern w)
    (hNot : ∀ s, ¬ pattern <+: c :: (w ++ s)) : Skips pattern (c :: w) := by
  intro s
  rw [List.cons_append, splitFirst, if_neg (hNot s), h, Option.map_map]
  simp [Function.comp_def]

theorem skips_of_notMem {c : α} {rest w : List α} (h : c ∉ w) : Skips (c :: rest) w := by
  induction w with
  | nil => exact .nil
  | cons d w ih =>
    rw [List.mem_cons, not_or] at h
    obtain ⟨hHead, hTail⟩ := h
    refine (ih hTail).cons fun s hPrefix => hHead ?_
    exact (List.cons_prefix_cons.mp hPrefix).1

theorem Skips.flatMap {β : Type u} {f : β → List α} {l : List β} (h : ∀ b ∈ l, Skips pattern (f b)) :
    Skips pattern (l.flatMap f) := by
  induction l with
  | nil => exact .nil
  | cons b l ih =>
    rw [List.flatMap_cons]
    exact (h b List.mem_cons_self).append (ih fun b' hb => h b' (List.mem_cons_of_mem _ hb))

/-- The pattern occurs first right after a part in which it does not begin. -/
theorem Skips.splitFirst_eq {w : List α} (h : Skips pattern w) (hSome : pattern ≠ []) (s : List α) :
    splitFirst pattern (w ++ (pattern ++ s)) = some (w, s) := by
  obtain ⟨c, rest, rfl⟩ := List.exists_cons_of_ne_nil hSome
  rw [h, List.cons_append, splitFirst, ← List.cons_append, if_pos (List.prefix_append _ s),
    List.drop_left]
  simp

end

section

variable {p : α → Bool} {w s : List α} {c : α}

theorem takeWhile_run (hRun : ∀ a ∈ w, p a = true) (hEnd : p c = false) :
    (w ++ c :: s).takeWhile p = w := by
  rw [List.takeWhile_append_of_pos hRun, List.takeWhile_cons_of_neg (by simp [hEnd]),
    List.append_nil]

theorem dropWhile_run (hRun : ∀ a ∈ w, p a = true) (hEnd : p c = false) :
    (w ++ c :: s).dropWhile p = c :: s := by
  rw [List.dropWhile_append_of_pos hRun, List.dropWhile_cons_of_neg (by simp [hEnd])]

/-- A run and what follows it make up the list. -/
theorem length_run (p : α → Bool) (s : List α) :
    (s.takeWhile p).length + (s.dropWhile p).length = s.length := by
  rw [← List.length_append, List.takeWhile_append_dropWhile]

end

end Scanning
