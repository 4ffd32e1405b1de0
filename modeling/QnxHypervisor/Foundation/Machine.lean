import Mathlib.Data.List.Basic
import Mathlib.Tactic.TypeStar

/-! # Event-driven machines and their runs

A machine is a partial step function driven by events. `ReachableBy ok` is
reachability along runs all of whose steps meet the guard `ok`, a condition on
the state before the step and on its event. The invariant rule turns facts about
one step into facts about every state of every such run.
-/

namespace QnxHypervisor.Foundation

/-- Initial states and a partial step function; `none` refuses the event. -/
structure Machine (σ ε : Type*) where
  initial : σ → Prop
  step : σ → ε → Option σ

namespace Machine

variable {σ ε : Type*} {M : Machine σ ε} {ok : σ → ε → Prop}

/-- States reached by a run whose every step meets `ok`. -/
inductive ReachableBy (M : Machine σ ε) (ok : σ → ε → Prop) : σ → Prop
  | initial {s : σ} (h : M.initial s) : ReachableBy M ok s
  | step {s s' : σ} {e : ε} (hr : ReachableBy M ok s) (hok : ok s e)
      (hs : M.step s e = some s') : ReachableBy M ok s'

/-- Reachability along arbitrary runs. -/
abbrev Reachable (M : Machine σ ε) : σ → Prop := M.ReachableBy fun _ _ => True

theorem ReachableBy.invariant {I : σ → Prop} {s : σ} (h : M.ReachableBy ok s)
    (initial : ∀ s, M.initial s → I s)
    (step : ∀ s e s', M.ReachableBy ok s → I s → ok s e → M.step s e = some s' → I s') :
    I s := by
  induction h with
  | initial hi => exact initial _ hi
  | step hr he hs ih => exact step _ _ _ hr ih he hs

theorem ReachableBy.unguarded {s : σ} (h : M.ReachableBy ok s) : M.Reachable s := by
  induction h with
  | initial hi => exact .initial hi
  | step _ _ hs ih => exact ih.step trivial hs

/-- The state after these events, if the machine takes them and all meet `ok`. -/
def after (M : Machine σ ε) (ok : σ → ε → Prop) [∀ s e, Decidable (ok s e)] : List ε → σ → Option σ
  | [], s => some s
  | e :: es, s => if ok s e then (M.step s e).bind (M.after ok es) else none

theorem ReachableBy.after [∀ s e, Decidable (ok s e)] {s s' : σ} {es : List ε}
    (h : M.ReachableBy ok s) (hs : M.after ok es s = some s') : M.ReachableBy ok s' := by
  induction es generalizing s with
  | nil =>
      cases hs
      exact h
  | cons e es ih =>
      unfold Machine.after at hs
      split at hs
      · next hok =>
        obtain ⟨next, hstep, hrest⟩ := Option.bind_eq_some_iff.mp hs
        exact ih (h.step hok hstep) hrest
      · cases hs

/-- A run that ends in a state with this property. -/
theorem ReachableBy.after_any [∀ s e, Decidable (ok s e)] {s : σ} (h : M.ReachableBy ok s)
    (es : List ε) (p : σ → Bool) (hp : (M.after ok es s).any p = true) :
    ∃ s', M.ReachableBy ok s' ∧ p s' = true := by
  obtain ⟨s', hs, hs'⟩ := (Option.any_eq_true p _).mp hp
  exact ⟨s', h.after hs, hs'⟩

end Machine

end QnxHypervisor.Foundation
