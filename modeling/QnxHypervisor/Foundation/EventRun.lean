import Mathlib.Data.List.Basic

/-! # Runs of a total machine

A total step function taken over a list of events. A law of steps holds of a run
when every step meets it, read at the state before the step; two laws that agree
on an invariant hold of the same runs.
-/

namespace QnxHypervisor.Foundation

variable {σ ε : Type*} {step : σ → ε → σ}

/-- Every step of the run from `s` meets `P`. -/
def StepsMeet (step : σ → ε → σ) (P : σ → ε → Prop) : σ → List ε → Prop
  | _, [] => True
  | s, e :: es => P s e ∧ StepsMeet step P (step s e) es

/-- Laws that agree wherever an invariant holds hold of the same runs. -/
theorem stepsMeet_congr {P Q : σ → ε → Prop} {I : σ → Prop}
    (hiff : ∀ s e, I s → (P s e ↔ Q s e)) (hstep : ∀ s e, I s → P s e → I (step s e))
    {s : σ} (hs : I s) (es : List ε) : StepsMeet step P s es ↔ StepsMeet step Q s es := by
  induction es generalizing s with
  | nil => exact Iff.rfl
  | cons e es ih =>
      constructor
      · rintro ⟨hfirst, hrest⟩
        exact ⟨(hiff s e hs).mp hfirst, (ih (hstep s e hs hfirst)).mp hrest⟩
      · rintro ⟨hfirst, hrest⟩
        have hfirst := (hiff s e hs).mpr hfirst
        exact ⟨hfirst, (ih (hstep s e hs hfirst)).mpr hrest⟩

end QnxHypervisor.Foundation
