import Mathlib.Data.List.Count
import Mathlib.Data.List.Infix
import Mathlib.Logic.Function.Basic

/-!
# Logs of things that begin and end

A log marks, for keys of any type, that a thing has begun or has ended. `Ordered` is the
protocol: at every moment, that is for every prefix of the log, a key has ended at most as
often as it has begun, and has begun at most once.

A log of entries that have a key leaves a table, with the last entry of each key.
-/

namespace Lifecycle

universe u

inductive Mark (κ : Type u) where
  | begun (key : κ)
  | ended (key : κ)
  deriving DecidableEq, Repr

variable {κ : Type u} [DecidableEq κ]

def begins (log : List (Mark κ)) (k : κ) : ℕ := log.count (.begun k)

def ends (log : List (Mark κ)) (k : κ) : ℕ := log.count (.ended k)

def Ordered (log : List (Mark κ)) : Prop :=
  ∀ before, before <+: log → ∀ k, ends before k ≤ begins before k ∧ begins before k ≤ 1

theorem ordered_nil : Ordered ([] : List (Mark κ)) := by
  intro before hPrefix k
  rw [List.prefix_nil.mp hPrefix]
  simp [ends, begins]

theorem begins_concat (log : List (Mark κ)) (m : Mark κ) (k : κ) :
    begins (log ++ [m]) k = begins log k + if m = .begun k then 1 else 0 := by
  simp [begins, List.count_append, List.count_singleton]

theorem ends_concat (log : List (Mark κ)) (m : Mark κ) (k : κ) :
    ends (log ++ [m]) k = ends log k + if m = .ended k then 1 else 0 := by
  simp [ends, List.count_append, List.count_singleton]

theorem Ordered.concat {log : List (Mark κ)} (h : Ordered log) {m : Mark κ}
    (hLast : ∀ k, ends (log ++ [m]) k ≤ begins (log ++ [m]) k ∧ begins (log ++ [m]) k ≤ 1) :
    Ordered (log ++ [m]) := by
  intro before hPrefix
  rcases List.prefix_concat_iff.mp hPrefix with rfl | hPrefix
  · exact hLast
  · exact h before hPrefix

theorem Ordered.begun {log : List (Mark κ)} (h : Ordered log) {k : κ} (hk : begins log k = 0) :
    Ordered (log ++ [.begun k]) := by
  refine h.concat fun k' => ?_
  obtain ⟨hEnds, hBegins⟩ := h log List.prefix_rfl k'
  rw [ends_concat, begins_concat]
  by_cases hKey : k = k'
  · subst hKey
    simp only [reduceCtorEq, if_false, if_true]
    omega
  · simp only [Mark.begun.injEq, hKey, reduceCtorEq, if_false]
    omega

theorem Ordered.ended {log : List (Mark κ)} (h : Ordered log) {k : κ}
    (hk : ends log k < begins log k) : Ordered (log ++ [.ended k]) := by
  refine h.concat fun k' => ?_
  obtain ⟨hEnds, hBegins⟩ := h log List.prefix_rfl k'
  rw [ends_concat, begins_concat]
  by_cases hKey : k = k'
  · subst hKey
    simp only [reduceCtorEq, if_false, if_true]
    omega
  · simp only [Mark.ended.injEq, hKey, reduceCtorEq, if_false]
    omega

/-- Nothing ends before it has begun. -/
theorem Ordered.begun_of_ended {log before after : List (Mark κ)} {k : κ} (h : Ordered log)
    (hLog : log = before ++ .ended k :: after) : .begun k ∈ before := by
  have hPrefix : before ++ [.ended k] <+: log := ⟨after, by simp [hLog]⟩
  obtain ⟨hEnds, _⟩ := h _ hPrefix k
  rw [ends_concat, begins_concat, if_pos rfl] at hEnds
  have hPos : 0 < begins before k := by
    simp only [reduceCtorEq, if_false] at hEnds
    omega
  exact List.count_pos_iff.mp hPos

theorem Ordered.ends_le_one {log : List (Mark κ)} (h : Ordered log) (k : κ) : ends log k ≤ 1 :=
  (h log List.prefix_rfl k).1.trans (h log List.prefix_rfl k).2

/-! ### The table of a log -/

section Table

universe v w

variable {α : Type v} {β : Type w}

def table (key : α → κ) (log : List α) (k : κ) : Option α := (log.filter fun a => key a = k).getLast?

theorem table_nil (key : α → κ) : table key [] = fun _ => none := rfl

theorem table_concat (key : α → κ) (log : List α) (a : α) :
    table key (log ++ [a]) = Function.update (table key log) (key a) (some a) := by
  funext k
  by_cases hKey : k = key a
  · subst hKey
    simp [table]
  · rw [Function.update_of_ne hKey]
    simp [table, Ne.symm hKey]

theorem table_eq_none_iff {key : α → κ} {log : List α} {k : κ} :
    table key log k = none ↔ ∀ a ∈ log, key a ≠ k := by
  simp [table]

theorem table_map (key : α → κ) (f : β → α) (log : List β) (k : κ) :
    table key (log.map f) k = (table (key ∘ f) log k).map f := by
  rw [table, List.filter_map, List.getLast?_map]
  rfl

/-- A table that is kept under other keys holds the same, where these tell the entries apart. -/
theorem table_rekey {key : α → κ} {κ' : Type*} [DecidableEq κ'] {key' : α → κ'} {log : List α}
    {k : κ} {k' : κ'} (h : ∀ a ∈ log, key' a = k' ↔ key a = k) : table key' log k' = table key log k := by
  rw [table, table, List.filter_congr fun a ha => decide_eq_decide.mpr (h a ha)]

end Table

end Lifecycle
