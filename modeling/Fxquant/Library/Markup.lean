import Mathlib.Data.List.Infix
import Mathlib.Data.Nat.Notation

/-!
# Nested markup

A document is read token by token: an element is what stands between a start tag and the end
tag of its name. The reader of tokens is a parameter; it answers the token and the rest of the
input, or nothing where the input is not well formed.
-/

namespace Markup

universe u v w x

inductive Token (ν : Type u) (β : Type v) (τ : Type w) where
  | finish
  | start (name : ν) (attributes : β)
  | empty (name : ν) (attributes : β)
  | stop (name : ν)
  | text (value : τ)
  /-- What leaves nothing in the document, and what only the top level may hold. -/
  | skip
  | prolog
  deriving DecidableEq

inductive Node (ν : Type u) (β : Type v) (τ : Type w) where
  | element (name : ν) (attributes : β) (children : List (Node ν β τ))
  | text (value : τ)

variable {α : Type x} {ν : Type u} {β : Type v} {τ : Type w}

abbrev Reader (α : Type x) (ν : Type u) (β : Type v) (τ : Type w) :=
  List α → Option (Token ν β τ × List α)

/-- The nodes before the next end tag that is not theirs, and the input from there. -/
def nodes [DecidableEq ν] (read : Reader α ν β τ) :
    ℕ → Bool → List α → Option (List (Node ν β τ) × List α)
  | 0, _, _ => none
  | n + 1, top, s =>
    match read s with
    | none => none
    | some (.finish, _) => some ([], s)
    | some (.stop _, _) => some ([], s)
    | some (.text value, r) => (nodes read n top r).map fun (ns, r) => (.text value :: ns, r)
    | some (.empty name attributes, r) =>
      (nodes read n top r).map fun (ns, r) => (.element name attributes [] :: ns, r)
    | some (.skip, r) => nodes read n top r
    | some (.prolog, r) => if top then nodes read n top r else none
    | some (.start name attributes, r) =>
      match nodes read n false r with
      | none => none
      | some (children, r) =>
        match read r with
        | some (.stop name', r) =>
          if name' = name then
            (nodes read n top r).map fun (ns, r) => (.element name attributes children :: ns, r)
          else none
        | _ => none

/-- The whole input as a list of nodes. -/
def document [DecidableEq ν] (read : Reader α ν β τ) (s : List α) : Option (List (Node ν β τ)) :=
  match nodes read (s.length + 1) true s with
  | some (ns, []) => some ns
  | _ => none

/-- A token is a part of the input, and only the end of the input is an empty one. -/
structure Consumes (read : Reader α ν β τ) : Prop where
  suffix : ∀ {s t r}, read s = some (t, r) → r <:+ s
  finish : ∀ {s r}, read s = some (.finish, r) → s = []
  lt : ∀ {s t r}, read s = some (t, r) → t ≠ .finish → r.length < s.length

/-- `s` holds the nodes `ns` up to `r`; the grammar that `nodes` follows. -/
inductive Reads (read : Reader α ν β τ) :
    Bool → List α → List (Node ν β τ) → List α → Prop where
  | finish {top s r} (h : read s = some (.finish, r)) : Reads read top s [] s
  | stop {top s name r} (h : read s = some (.stop name, r)) : Reads read top s [] s
  | text {top s value r ns t} (h : read s = some (.text value, r)) (hRest : Reads read top r ns t) :
      Reads read top s (.text value :: ns) t
  | empty {top s name attributes r ns t} (h : read s = some (.empty name attributes, r))
      (hRest : Reads read top r ns t) : Reads read top s (.element name attributes [] :: ns) t
  | skip {top s r ns t} (h : read s = some (.skip, r)) (hRest : Reads read top r ns t) :
      Reads read top s ns t
  | prolog {s r ns t} (h : read s = some (.prolog, r)) (hRest : Reads read true r ns t) :
      Reads read true s ns t
  | start {top s name attributes r children t u ns v} (h : read s = some (.start name attributes, r))
      (hChildren : Reads read false r children t) (hStop : read t = some (.stop name, u))
      (hRest : Reads read top u ns v) :
      Reads read top s (.element name attributes children :: ns) v

section

variable {read : Reader α ν β τ} {top : Bool} {s r v : List α} {ns : List (Node ν β τ)}

theorem Reads.suffix (hRead : Consumes read) (h : Reads read top s ns r) : r <:+ s := by
  induction h with
  | finish h => exact List.suffix_rfl
  | stop h => exact List.suffix_rfl
  | text h _ ih => exact ih.trans (hRead.suffix h)
  | empty h _ ih => exact ih.trans (hRead.suffix h)
  | skip h _ ih => exact ih.trans (hRead.suffix h)
  | prolog h _ ih => exact ih.trans (hRead.suffix h)
  | start h _ hStop _ ihChildren ihRest =>
    exact ihRest.trans ((hRead.suffix hStop).trans (ihChildren.trans (hRead.suffix h)))

/-- Where no text is longer than the token it is read from, a text of the list and the input after
the list are together no longer than the input. -/
theorem Reads.text_size (hRead : Consumes read) (size : τ → ℕ)
    (hSize : ∀ {s value r}, read s = some (.text value, r) → size value + r.length ≤ s.length)
    (h : Reads read top s ns r) {value : τ} (hMem : .text value ∈ ns) :
    size value + r.length ≤ s.length := by
  induction h with
  | finish h => exact absurd hMem List.not_mem_nil
  | stop h => exact absurd hMem List.not_mem_nil
  | text h hRest ih =>
    have hToken := hSize h
    cases List.mem_cons.mp hMem with
    | inl hHere =>
      cases hHere
      have hLength := (hRest.suffix hRead).length_le
      omega
    | inr hLater =>
      have hLength := ih hLater
      omega
  | empty h _ ih =>
    have hToken := (hRead.suffix h).length_le
    have hLength := ih ((List.mem_cons.mp hMem).resolve_left nofun)
    omega
  | skip h _ ih =>
    have hToken := (hRead.suffix h).length_le
    have hLength := ih hMem
    omega
  | prolog h _ ih =>
    have hToken := (hRead.suffix h).length_le
    have hLength := ih hMem
    omega
  | start h hChildren hStop _ _ ih =>
    have hToken := (hRead.suffix h).length_le
    have hInside := (hChildren.suffix hRead).length_le
    have hEnd := (hRead.suffix hStop).length_le
    have hLength := ih ((List.mem_cons.mp hMem).resolve_left nofun)
    omega

theorem reads_text_iff {value : τ} (h : read s = some (.text value, r)) :
    Reads read top s ns v ↔ ∃ ns', ns = .text value :: ns' ∧ Reads read top r ns' v := by
  constructor
  · intro hReads
    cases hReads <;> simp_all
  · rintro ⟨ns', rfl, hRest⟩
    exact .text h hRest

theorem reads_skip_iff (h : read s = some (.skip, r)) :
    Reads read top s ns v ↔ Reads read top r ns v := by
  constructor
  · intro hReads
    cases hReads <;> simp_all
  · exact .skip h

theorem reads_stop_iff {name : ν} (h : read s = some (.stop name, r)) :
    Reads read top s ns v ↔ ns = [] ∧ v = s := by
  constructor
  · intro hReads
    cases hReads <;> simp_all
  · rintro ⟨rfl, rfl⟩
    exact .stop h

theorem reads_start_iff {name : ν} {attributes : β} (h : read s = some (.start name attributes, r)) :
    Reads read top s ns v ↔ ∃ children t u ns', ns = .element name attributes children :: ns' ∧
      Reads read false r children t ∧ read t = some (.stop name, u) ∧ Reads read top u ns' v := by
  constructor
  · intro hReads
    cases hReads with
    | start h' hChildren hStop hRest =>
      rw [h] at h'
      cases h'
      exact ⟨_, _, _, _, rfl, hChildren, hStop, hRest⟩
    | _ => simp_all
  · rintro ⟨children, t, u, ns', rfl, hChildren, hStop, hRest⟩
    exact .start h hChildren hStop hRest

variable [DecidableEq ν]

theorem nodes_sound {n : ℕ} (h : nodes read n top s = some (ns, r)) : Reads read top s ns r := by
  induction n generalizing top s ns r with
  | zero => cases h
  | succ n ih =>
    rw [nodes] at h
    split at h
    · cases h
    · rename_i hToken
      cases h
      exact .finish hToken
    · rename_i hToken
      cases h
      exact .stop hToken
    · rename_i hToken
      obtain ⟨⟨ns', r'⟩, hRest, hEq⟩ := Option.map_eq_some_iff.mp h
      cases hEq
      exact .text hToken (ih hRest)
    · rename_i hToken
      obtain ⟨⟨ns', r'⟩, hRest, hEq⟩ := Option.map_eq_some_iff.mp h
      cases hEq
      exact .empty hToken (ih hRest)
    · rename_i hToken
      exact .skip hToken (ih h)
    · rename_i hToken
      split at h
      · rename_i hTop
        subst hTop
        exact .prolog hToken (ih h)
      · cases h
    · rename_i hToken
      split at h
      · cases h
      · rename_i hChildren
        split at h
        · rename_i hStop
          split at h
          · rename_i hName
            subst hName
            obtain ⟨⟨ns', r'⟩, hRest, hEq⟩ := Option.map_eq_some_iff.mp h
            cases hEq
            exact .start hToken (ih hChildren) hStop (ih hRest)
          · cases h
        · cases h

theorem nodes_complete (hRead : Consumes read) (h : Reads read top s ns r) {n : ℕ}
    (hFuel : s.length < n) : nodes read n top s = some (ns, r) := by
  induction h generalizing n with
  | finish h =>
    obtain ⟨m, rfl⟩ := Nat.exists_eq_add_of_lt hFuel
    simp only [nodes, h]
  | stop h =>
    obtain ⟨m, rfl⟩ := Nat.exists_eq_add_of_lt hFuel
    simp only [nodes, h]
  | text h _ ih =>
    obtain ⟨m, rfl⟩ := Nat.exists_eq_add_of_lt hFuel
    have hLt := hRead.lt h nofun
    have hRest := ih (Nat.lt_add_right m hLt)
    simp only [nodes, h, hRest, Option.map_some]
  | empty h _ ih =>
    obtain ⟨m, rfl⟩ := Nat.exists_eq_add_of_lt hFuel
    have hLt := hRead.lt h nofun
    have hRest := ih (Nat.lt_add_right m hLt)
    simp only [nodes, h, hRest, Option.map_some]
  | skip h _ ih =>
    obtain ⟨m, rfl⟩ := Nat.exists_eq_add_of_lt hFuel
    have hLt := hRead.lt h nofun
    have hRest := ih (Nat.lt_add_right m hLt)
    simp only [nodes, h, hRest]
  | prolog h _ ih =>
    obtain ⟨m, rfl⟩ := Nat.exists_eq_add_of_lt hFuel
    have hLt := hRead.lt h nofun
    have hRest := ih (Nat.lt_add_right m hLt)
    simp only [nodes, h, if_true, hRest]
  | start h hChildren hStop _ ihChildren ihRest =>
    obtain ⟨m, rfl⟩ := Nat.exists_eq_add_of_lt hFuel
    have hLt := hRead.lt h nofun
    have hInside := (hChildren.suffix hRead).length_le
    have hEnd := hRead.lt hStop nofun
    have hIn := ihChildren (Nat.lt_add_right m hLt)
    have hRest := ihRest (Nat.lt_add_right m (hEnd.trans (hInside.trans_lt hLt)))
    simp only [nodes, h, hIn, hStop, if_true, hRest, Option.map_some]

/-- The fuel of `document` is enough for every document. -/
theorem document_eq_some_iff (hRead : Consumes read) :
    document read s = some ns ↔ Reads read true s ns [] := by
  constructor
  · intro h
    rw [document] at h
    split at h
    · rename_i hNodes
      cases h
      exact nodes_sound hNodes
    · cases h
  · intro h
    rw [document, nodes_complete hRead h (Nat.lt_succ_self _)]

end

end Markup
