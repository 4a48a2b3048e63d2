import Mathlib.Init

/-!
# Work and the flag that announces it

A worker that finds nothing to do sleeps until a flag is raised. Others add work and raise the
flag afterwards, so there is a moment in which neither tells of it but the one that is about to
raise the flag. A `Bell` names the four parts in the state of a machine.
-/

namespace Wakeups

universe u

variable {σ : Type u}

/-- `looked` says that the worker has found nothing since it last used up the flag or woke. -/
structure Bell (σ : Type u) where
  work : σ → Prop
  raising : σ → Prop
  flag : σ → Prop
  looked : σ → Prop

/-- Work that the worker has not seen when it looked is announced, or about to be. -/
def Bell.Announced (b : Bell σ) (s : σ) : Prop :=
  b.looked s → b.work s → b.flag s ∨ b.raising s

/-- What the steps of those who add work and of the worker do to the parts. -/
inductive Bell.Move (b : Bell σ) (s s' : σ) : Prop where
  | add (hRaising : b.raising s')
  | raise (hFlag : b.flag s')
  | look (hNone : ¬ b.work s')
  | leave (hBack : ¬ b.looked s')
  | keep (hWork : b.work s' → b.work s) (hRaising : b.raising s → b.raising s')
      (hFlag : b.flag s → b.flag s') (hLooked : b.looked s' → b.looked s)

variable {b : Bell σ} {s s' : σ}

theorem Bell.Announced.move (h : b.Announced s) (hMove : b.Move s s') : b.Announced s' := by
  intro hLooked hWork
  cases hMove with
  | add hRaising => exact .inr hRaising
  | raise hFlag => exact .inl hFlag
  | look hNone => exact absurd hWork hNone
  | leave hBack => exact absurd hLooked hBack
  | keep hOld hRaising hFlag hBefore => exact (h (hBefore hLooked) (hOld hWork)).imp hFlag hRaising

/-- A worker that sleeps while nobody is about to raise the flag has nothing to do. -/
theorem Bell.Announced.idle (h : b.Announced s) (hLooked : b.looked s) (hFlag : ¬ b.flag s)
    (hRaising : ¬ b.raising s) : ¬ b.work s :=
  fun hWork => (h hLooked hWork).elim hFlag hRaising

end Wakeups
