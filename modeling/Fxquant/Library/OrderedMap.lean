import Mathlib.Algebra.BigOperators.Group.List.Basic
import Mathlib.Order.Compare
import Mathlib.Order.Lattice

/-!
# Ordered maps

A map as its entries in the order of the keys, with the three things a program does with an
ordered map: look a key up, write the entry of a key whether it is there or not, and visit the
entries in order, changing values and leaving the loop early.
-/

universe u v w

structure OrderedMap (κ : Type u) (ν : Type v) [LinearOrder κ] where
  entries : List (κ × ν)
  sorted : entries.Pairwise fun a b => a.1 < b.1

namespace OrderedMap

variable {κ : Type u} {ν : Type v} {σ : Type w} [LinearOrder κ]

def empty : OrderedMap κ ν := ⟨[], List.Pairwise.nil⟩

instance : EmptyCollection (OrderedMap κ ν) := ⟨empty⟩

def findIn (k : κ) : List (κ × ν) → Option ν
  | [] => none
  | e :: l => if compare k e.1 = .eq then some e.2 else findIn k l

def putIn (k : κ) (v : ν) : List (κ × ν) → List (κ × ν)
  | [] => [(k, v)]
  | e :: l =>
    match compare k e.1 with
    | .lt => (k, v) :: e :: l
    | .eq => (k, v) :: l
    | .gt => e :: putIn k v l

/-- The loop `for (auto& e : map)`; the flag that the body answers is its `break`. -/
def visitIn (f : σ → κ → ν → σ × ν × Bool) : σ → List (κ × ν) → σ × List (κ × ν)
  | s, [] => (s, [])
  | s, e :: l =>
    let (s, v, stop) := f s e.1 e.2
    if stop then (s, (e.1, v) :: l)
    else
      let (s, l) := visitIn f s l
      (s, (e.1, v) :: l)

/-! ### Writing -/

theorem mem_putIn {k : κ} {v : ν} {l : List (κ × ν)} {e : κ × ν} (h : e ∈ putIn k v l) :
    e = (k, v) ∨ e ∈ l := by
  induction l with
  | nil => exact .inl (List.mem_singleton.mp h)
  | cons e' l ih =>
    rw [putIn] at h
    split at h
    · exact List.mem_cons.mp h
    · cases List.mem_cons.mp h with
      | inl h => exact .inl h
      | inr h => exact .inr (List.mem_cons_of_mem _ h)
    · cases List.mem_cons.mp h with
      | inl h => exact .inr (h ▸ List.mem_cons_self)
      | inr h =>
        cases ih h with
        | inl h => exact .inl h
        | inr h => exact .inr (List.mem_cons_of_mem _ h)

theorem putIn_sorted (k : κ) (v : ν) {l : List (κ × ν)} (h : l.Pairwise fun a b => a.1 < b.1) :
    (putIn k v l).Pairwise fun a b => a.1 < b.1 := by
  induction l with
  | nil => exact List.pairwise_singleton _ _
  | cons e l ih =>
    obtain ⟨hHead, hTail⟩ := List.pairwise_cons.mp h
    rw [putIn]
    split
    · rename_i hLt
      have hBefore : k < e.1 := compare_lt_iff_lt.mp hLt
      refine List.pairwise_cons.mpr ⟨?_, h⟩
      intro a ha
      cases List.mem_cons.mp ha with
      | inl hEq => exact hEq ▸ hBefore
      | inr ha => exact hBefore.trans (hHead a ha)
    · rename_i hEq
      rw [compare_eq_iff_eq.mp hEq]
      exact List.pairwise_cons.mpr ⟨hHead, hTail⟩
    · rename_i hGt
      refine List.pairwise_cons.mpr ⟨?_, ih hTail⟩
      intro a ha
      cases mem_putIn ha with
      | inl hEq => exact hEq ▸ compare_gt_iff_gt.mp hGt
      | inr ha => exact hHead a ha

theorem findIn_putIn (k : κ) (v : ν) (k' : κ) (l : List (κ × ν)) :
    findIn k' (putIn k v l) = if compare k' k = .eq then some v else findIn k' l := by
  induction l with
  | nil => rfl
  | cons e l ih =>
    rw [putIn]
    split
    · rfl
    · rename_i hEq
      rw [findIn, findIn, compare_eq_iff_eq.mp hEq]
      split <;> rfl
    · rename_i hGt
      rw [findIn, ih, findIn]
      by_cases hHere : compare k' e.1 = .eq
      · have hNe : compare k' k ≠ .eq := by
          intro hEq
          rw [compare_eq_iff_eq] at hHere hEq
          rw [← hEq, hHere, compare_gt_iff_gt] at hGt
          exact lt_irrefl _ hGt
        rw [if_pos hHere, if_neg hNe, if_pos hHere]
      · rw [if_neg hHere, if_neg hHere]

/-! ### Visiting -/

omit [LinearOrder κ] in
theorem visitIn_keys (f : σ → κ → ν → σ × ν × Bool) (s : σ) (l : List (κ × ν)) :
    (visitIn f s l).2.map Prod.fst = l.map Prod.fst := by
  induction l generalizing s with
  | nil => rfl
  | cons e l ih =>
    rw [visitIn]
    split
    rename_i s' v stop _
    cases stop with
    | true => rfl
    | false => exact congrArg (e.1 :: ·) (ih s')

theorem visitIn_sorted (f : σ → κ → ν → σ × ν × Bool) (s : σ) {l : List (κ × ν)}
    (h : l.Pairwise fun a b => a.1 < b.1) : (visitIn f s l).2.Pairwise fun a b => a.1 < b.1 := by
  have hKeys := List.pairwise_map.mpr h
  rw [← visitIn_keys f s l] at hKeys
  exact List.pairwise_map.mp hKeys

/-! ### The map -/

def find? (m : OrderedMap κ ν) (k : κ) : Option ν := findIn k m.entries

def put (m : OrderedMap κ ν) (k : κ) (v : ν) : OrderedMap κ ν :=
  ⟨putIn k v m.entries, putIn_sorted k v m.sorted⟩

def visit (m : OrderedMap κ ν) (s : σ) (f : σ → κ → ν → σ × ν × Bool) : σ × OrderedMap κ ν :=
  ((visitIn f s m.entries).1, ⟨(visitIn f s m.entries).2, visitIn_sorted f s m.sorted⟩)

@[ext] theorem ext {m m' : OrderedMap κ ν} (h : m.entries = m'.entries) : m = m' := by
  cases m
  cases m'
  cases h
  rfl

@[simp] theorem find?_empty (k : κ) : (∅ : OrderedMap κ ν).find? k = none := rfl

@[simp] theorem find?_put_self (m : OrderedMap κ ν) (k : κ) (v : ν) :
    (m.put k v).find? k = some v := by
  rw [find?, put, findIn_putIn, if_pos (compare_eq_iff_eq.mpr rfl)]

theorem find?_put_of_ne (m : OrderedMap κ ν) {k k' : κ} (v : ν) (h : k' ≠ k) :
    (m.put k v).find? k' = m.find? k' := by
  rw [find?, put, findIn_putIn, if_neg (mt compare_eq_iff_eq.mp h)]
  rfl

theorem find?_put_cases {m : OrderedMap κ ν} {k k' : κ} {v v' : ν}
    (h : (m.put k v).find? k' = some v') : k' = k ∧ v' = v ∨ m.find? k' = some v' := by
  by_cases hKey : k' = k
  · subst hKey
    rw [find?_put_self] at h
    exact .inl ⟨rfl, (Option.some.inj h).symm⟩
  · rw [find?_put_of_ne m v hKey] at h
    exact .inr h

/-- What is found is an entry, and the entries have their keys once. -/
theorem findIn_eq_some_iff {l : List (κ × ν)} (h : l.Pairwise fun a b => a.1 < b.1) {k : κ}
    {v : ν} : findIn k l = some v ↔ (k, v) ∈ l := by
  induction l with
  | nil => simp [findIn]
  | cons e l ih =>
    obtain ⟨hHead, hTail⟩ := List.pairwise_cons.mp h
    rw [findIn, List.mem_cons]
    by_cases hKey : compare k e.1 = .eq
    · rw [if_pos hKey]
      rw [compare_eq_iff_eq] at hKey
      constructor
      · intro hVal
        exact .inl (Prod.ext hKey (Option.some.inj hVal).symm)
      · rintro (hEq | hMem)
        · rw [← hEq]
        · exact absurd hKey (hHead _ hMem).ne'
    · rw [if_neg hKey, ih hTail]
      constructor
      · exact .inr
      · rintro (hEq | hMem)
        · exact absurd (compare_eq_iff_eq.mpr (congrArg Prod.fst hEq)) hKey
        · exact hMem

theorem find?_eq_some_iff {m : OrderedMap κ ν} {k : κ} {v : ν} :
    m.find? k = some v ↔ (k, v) ∈ m.entries :=
  findIn_eq_some_iff m.sorted

/-! ### Loops -/

omit [LinearOrder κ] in
/-- Entries that the body leaves alone are passed by. -/
theorem visitIn_append_of_skip {f : σ → κ → ν → σ × ν × Bool} {a : List (κ × ν)}
    (h : ∀ e ∈ a, ∀ s, f s e.1 e.2 = (s, e.2, false)) (s : σ) (l : List (κ × ν)) :
    visitIn f s (a ++ l) = ((visitIn f s l).1, a ++ (visitIn f s l).2) := by
  induction a with
  | nil => rfl
  | cons e a ih =>
    rw [List.cons_append, visitIn, h e List.mem_cons_self]
    simp only [Bool.false_eq_true, if_false]
    rw [ih fun e' he' => h e' (List.mem_cons_of_mem _ he')]
    rfl

omit [LinearOrder κ] in
theorem visitIn_of_skip {f : σ → κ → ν → σ × ν × Bool} {l : List (κ × ν)}
    (h : ∀ e ∈ l, ∀ s, f s e.1 e.2 = (s, e.2, false)) (s : σ) : visitIn f s l = (s, l) := by
  have hAll := visitIn_append_of_skip h s []
  rw [List.append_nil] at hAll
  simpa [visitIn] using hAll

omit [LinearOrder κ] in
/-- A loop without `break`. -/
theorem visitIn_append {f : σ → κ → ν → σ × ν × Bool} (h : ∀ s k v, (f s k v).2.2 = false)
    (s : σ) (a b : List (κ × ν)) : visitIn f s (a ++ b) =
      ((visitIn f (visitIn f s a).1 b).1,
        (visitIn f s a).2 ++ (visitIn f (visitIn f s a).1 b).2) := by
  induction a generalizing s with
  | nil => rfl
  | cons e a ih =>
    simp only [List.cons_append, visitIn, h, Bool.false_eq_true, if_false, ih]

theorem putIn_middle {a b : List (κ × ν)} {k : κ} {v : ν}
    (h : (a ++ (k, v) :: b).Pairwise fun a b => a.1 < b.1) (v' : ν) :
    putIn k v' (a ++ (k, v) :: b) = a ++ (k, v') :: b := by
  induction a with
  | nil =>
    have hEq : compare k k = .eq := compare_eq_iff_eq.mpr rfl
    rw [List.nil_append, putIn, hEq]
    rfl
  | cons e a ih =>
    obtain ⟨hHead, hTail⟩ := List.pairwise_cons.mp h
    have hGt : compare k e.1 = .gt := compare_gt_iff_gt.mpr (hHead (k, v) (by simp))
    rw [List.cons_append, putIn, hGt, List.cons_append]
    exact congrArg (e :: ·) (ih hTail)

omit [LinearOrder κ] in
/-- A loop whose body keeps a property of the accumulator and one of the entries keeps both. -/
theorem visitIn_keeps {f : σ → κ → ν → σ × ν × Bool} {I : σ → Prop} {P : κ → ν → Prop}
    (hBody : ∀ s k v, I s → P k v → I (f s k v).1 ∧ P k (f s k v).2.1) {s : σ} (hI : I s)
    {l : List (κ × ν)} (hP : ∀ e ∈ l, P e.1 e.2) :
    I (visitIn f s l).1 ∧ ∀ e ∈ (visitIn f s l).2, P e.1 e.2 := by
  induction l generalizing s with
  | nil => exact ⟨hI, hP⟩
  | cons e l ih =>
    obtain ⟨hHere, hLater⟩ := List.forall_mem_cons.mp hP
    obtain ⟨hAcc, hValue⟩ := hBody s e.1 e.2 hI hHere
    rw [visitIn]
    split
    rename_i s' v stop hStep
    rw [hStep] at hAcc hValue
    cases stop with
    | true =>
      constructor
      · exact hAcc
      · exact List.forall_mem_cons.mpr ⟨hValue, hLater⟩
    | false =>
      obtain ⟨hEnd, hRest⟩ := ih hAcc hLater
      constructor
      · exact hEnd
      · exact List.forall_mem_cons.mpr ⟨hValue, hRest⟩

theorem visit_keeps {f : σ → κ → ν → σ × ν × Bool} {I : σ → Prop} {P : κ → ν → Prop}
    (hBody : ∀ s k v, I s → P k v → I (f s k v).1 ∧ P k (f s k v).2.1) {s : σ} (hI : I s)
    {m : OrderedMap κ ν} (hP : ∀ k v, m.find? k = some v → P k v) :
    I (m.visit s f).1 ∧ ∀ k v, (m.visit s f).2.find? k = some v → P k v := by
  have hEntries : ∀ e ∈ m.entries, P e.1 e.2 := by
    intro e he
    exact hP e.1 e.2 (find?_eq_some_iff.mpr he)
  obtain ⟨hEnd, hRest⟩ := visitIn_keeps hBody hI hEntries
  refine ⟨hEnd, ?_⟩
  intro k v hFind
  exact hRest (k, v) (find?_eq_some_iff.mp hFind)

/-- A loop whose body gives every entry a property gives it to the whole map. -/
theorem visit_gives {f : σ → κ → ν → σ × ν × Bool} {P : ν → Prop}
    (hBody : ∀ s k v, (f s k v).2.2 = false ∧ P (f s k v).2.1) (s : σ) (m : OrderedMap κ ν) :
    ∀ k v, (m.visit s f).2.find? k = some v → P v := by
  have hEntries : ∀ l : List (κ × ν), ∀ s, ∀ e ∈ (visitIn f s l).2, P e.2 := by
    intro l
    induction l with
    | nil =>
      intro s e he
      cases he
    | cons e l ih =>
      intro s
      obtain ⟨hStop, hValue⟩ := hBody s e.1 e.2
      rw [visitIn]
      simp only [hStop, Bool.false_eq_true, if_false]
      exact List.forall_mem_cons.mpr ⟨hValue, ih _⟩
  intro k v hFind
  exact hEntries m.entries s (k, v) (find?_eq_some_iff.mp hFind)

/-- A loop whose body keeps what is read of a value keeps it under every key. -/
theorem visit_reads {β : Type*} {f : σ → κ → ν → σ × ν × Bool} {read : ν → β}
    (hBody : ∀ s k v, read (f s k v).2.1 = read v) (s : σ) (m : OrderedMap κ ν) (k : κ) :
    ((m.visit s f).2.find? k).map read = (m.find? k).map read := by
  have hEntries : ∀ (l : List (κ × ν)) (s : σ),
      (findIn k (visitIn f s l).2).map read = (findIn k l).map read := by
    intro l
    induction l with
    | nil => exact fun _ => rfl
    | cons e l ih =>
      intro s
      have hHere := hBody s e.1 e.2
      rw [visitIn]
      split
      rename_i s' v stop hStep
      rw [hStep] at hHere
      cases stop with
      | true =>
        simp only [if_true, findIn]
        split
        · exact congrArg some hHere
        · rfl
      | false =>
        simp only [Bool.false_eq_true, if_false, findIn]
        split
        · exact congrArg some hHere
        · exact ih s'
  exact hEntries m.entries s

theorem visit_eq {f : σ → κ → ν → σ × ν × Bool} {m m' : OrderedMap κ ν} {s s' : σ}
    (h : visitIn f s m.entries = (s', m'.entries)) : m.visit s f = (s', m') :=
  Prod.ext (Prod.ext_iff.mp h).1 (ext (Prod.ext_iff.mp h).2)

/-- A loop that looks for the first entry of a kind, and leaves when it has dealt with it. -/
theorem visit_until {f : σ → κ → ν → σ × ν × Bool} {p : κ → ν → Bool}
    (hSkip : ∀ s k v, p k v = false → f s k v = (s, v, false))
    (hStop : ∀ s k v, p k v = true → (f s k v).2.2 = true) (m : OrderedMap κ ν) (s : σ) :
    (∀ k v, m.find? k = some v → p k v = false) ∧ m.visit s f = (s, m) ∨
      ∃ k v, m.find? k = some v ∧ p k v = true ∧
        m.visit s f = ((f s k v).1, m.put k (f s k v).2.1) := by
  cases hFirst : m.entries.find? fun e => p e.1 e.2 with
  | none =>
    have hNone : ∀ e ∈ m.entries, p e.1 e.2 = false := by
      intro e he
      simpa using List.find?_eq_none.mp hFirst e he
    left
    constructor
    · intro k v hFind
      exact hNone _ (find?_eq_some_iff.mp hFind)
    · exact visit_eq (visitIn_of_skip (fun e he s => hSkip s e.1 e.2 (hNone e he)) s)
  | some e =>
    obtain ⟨he, a, b, hSplit, hBefore⟩ := List.find?_eq_some_iff_append.mp hFirst
    have hLoop : visitIn f s m.entries =
        ((f s e.1 e.2).1, a ++ (e.1, (f s e.1 e.2).2.1) :: b) := by
      rw [hSplit, visitIn_append_of_skip fun e' he' s => hSkip s e'.1 e'.2
        (by simpa using hBefore e' he'), visitIn]
      simp only [hStop s e.1 e.2 he, if_true]
    have hSorted := m.sorted
    rw [hSplit] at hSorted
    right
    refine ⟨e.1, e.2, ?_, he, visit_eq ?_⟩
    · rw [find?_eq_some_iff, hSplit]
      simp
    · have hPut : (m.put e.1 (f s e.1 e.2).2.1).entries =
          a ++ (e.1, (f s e.1 e.2).2.1) :: b :=
        (congrArg _ hSplit).trans (putIn_middle hSorted _)
      rw [hLoop, hPut]

/-! ### What the values amount to -/

section SumOf

variable {M : Type*} [AddCommMonoid M]

def sumOf (g : ν → M) (m : OrderedMap κ ν) : M := (m.entries.map fun e => g e.2).sum

@[simp] theorem sumOf_empty (g : ν → M) : sumOf g (∅ : OrderedMap κ ν) = 0 := rfl

theorem sumOf_eq_zero {g : ν → M} {m : OrderedMap κ ν} (h : ∀ k v, m.find? k = some v → g v = 0) :
    m.sumOf g = 0 := by
  apply List.sum_eq_zero
  intro n hn
  obtain ⟨e, he, rfl⟩ := List.mem_map.mp hn
  exact h e.1 e.2 (find?_eq_some_iff.mpr he)

/-- A value that is written replaces the old one in the sum. A key that is not there counts as one
with a value that amounts to nothing. -/
theorem sumOf_put {g : ν → M} {d : ν} (hDefault : g d = 0) (m : OrderedMap κ ν) (k : κ) (v : ν) :
    sumOf g (m.put k v) + g ((m.find? k).getD d) = sumOf g m + g v := by
  have hEntries : ∀ l : List (κ × ν), l.Pairwise (fun a b => a.1 < b.1) →
      ((putIn k v l).map fun e => g e.2).sum + g ((findIn k l).getD d) =
        (l.map fun e => g e.2).sum + g v := by
    intro l hSorted
    induction l with
    | nil =>
      rw [putIn, findIn, Option.getD_none, hDefault]
      simp
    | cons e l ih =>
      obtain ⟨hHead, hTail⟩ := List.pairwise_cons.mp hSorted
      rw [putIn, findIn]
      cases hCompare : compare k e.1 with
      | lt =>
        have hAbsent : findIn k l = none := by
          cases hFind : findIn k l with
          | none => rfl
          | some v' =>
            have hLater := hHead _ ((findIn_eq_some_iff hTail).mp hFind)
            exact absurd (hLater.trans (compare_lt_iff_lt.mp hCompare)) (lt_irrefl _)
        simp only [reduceCtorEq, if_false, hAbsent, Option.getD_none, hDefault, List.map_cons,
          List.sum_cons, add_zero]
        exact add_comm _ _
      | eq =>
        simp only [if_true, Option.getD_some, List.map_cons, List.sum_cons]
        rw [add_comm (g v), add_right_comm, add_comm (g e.2)]
      | gt =>
        simp only [reduceCtorEq, if_false, List.map_cons, List.sum_cons]
        rw [add_assoc, ih hTail, add_assoc]
  exact hEntries m.entries m.sorted

/-- A loop whose body only moves amounts between the accumulator and the entry at hand keeps
what they amount to in all. -/
theorem visit_conserves {a : σ → M} {g : ν → M} {f : σ → κ → ν → σ × ν × Bool}
    (hBody : ∀ s k v, a (f s k v).1 + g (f s k v).2.1 = a s + g v) (s : σ) (m : OrderedMap κ ν) :
    a (m.visit s f).1 + sumOf g (m.visit s f).2 = a s + sumOf g m := by
  have hEntries : ∀ (l : List (κ × ν)) (s : σ),
      a (visitIn f s l).1 + ((visitIn f s l).2.map fun e => g e.2).sum =
        a s + (l.map fun e => g e.2).sum := by
    intro l
    induction l with
    | nil => exact fun _ => rfl
    | cons e l ih =>
      intro s
      have hHere := hBody s e.1 e.2
      rw [visitIn]
      split
      rename_i s' v stop hStep
      rw [hStep] at hHere
      cases stop with
      | true =>
        simp only [if_true, List.map_cons, List.sum_cons]
        rw [← add_assoc, hHere, add_assoc]
      | false =>
        have hRest := ih s'
        simp only [Bool.false_eq_true, if_false, List.map_cons, List.sum_cons]
        rw [add_left_comm, hRest, ← add_assoc, add_comm (g v), hHere, add_assoc]
  exact hEntries m.entries s

theorem sumOf_visit {g : ν → M} {f : σ → κ → ν → σ × ν × Bool}
    (hBody : ∀ s k v, g (f s k v).2.1 = g v) (s : σ) (m : OrderedMap κ ν) :
    sumOf g (m.visit s f).2 = sumOf g m := by
  have hLoop := visit_conserves (a := fun _ : σ => (0 : M)) (g := g) (f := f)
    (fun s k v => congrArg _ (hBody s k v)) s m
  rwa [zero_add, zero_add] at hLoop

end SumOf

end OrderedMap
