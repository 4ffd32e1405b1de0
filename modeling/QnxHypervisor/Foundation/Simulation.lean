import QnxHypervisor.Foundation.Machine

/-! # Machines seen through a map

A map between the states of two machines under which every guarded step of the
first is one of the second, or leaves the image alone, carries reachable states to
reachable states. A machine put together from two others is seen this way as each
of its parts.
-/

namespace QnxHypervisor.Foundation.Machine

variable {σ τ ε δ : Type*} {M : Machine σ ε} {N : Machine τ δ} {ok : σ → ε → Prop}
  {ok' : τ → δ → Prop}

/-- A step of `M` is, seen through `f`, a step of `N` or none. -/
def Seen (N : Machine τ δ) (ok' : τ → δ → Prop) (t t' : τ) : Prop :=
  t' = t ∨ ∃ d, ok' t d ∧ N.step t d = some t'

theorem ReachableBy.seen {s : σ} (h : M.ReachableBy ok s) (f : σ → τ)
    (initial : ∀ s, M.initial s → N.initial (f s))
    (step : ∀ s e s', M.ReachableBy ok s → ok s e → M.step s e = some s' →
      Seen N ok' (f s) (f s')) :
    N.ReachableBy ok' (f s) := by
  induction h with
  | initial hi => exact .initial (initial _ hi)
  | step hr hok hs ih =>
      rcases step _ _ _ hr hok hs with hsame | ⟨d, hd, hstep⟩
      · rwa [hsame]
      · exact ih.step hd hstep

end QnxHypervisor.Foundation.Machine
