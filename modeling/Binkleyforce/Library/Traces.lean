import Mathlib.Data.List.Basic
import Mathlib.Tactic.TypeStar

/-!
# Traces of labelled steps

A trace is a sequence of labelled steps from one state to another. What every step keeps, a trace
keeps.
-/

namespace Binkleyforce.Library

variable {σ ε : Type*}

/-- The steps with these labels lead from the first state to the last one. -/
inductive Trace (step : σ → ε → σ → Prop) : σ → List ε → σ → Prop where
  | done (s : σ) : Trace step s [] s
  | step {s t u : σ} {label : ε} {labels : List ε} (first : step s label t)
      (rest : Trace step t labels u) : Trace step s (label :: labels) u

namespace Trace

variable {step : σ → ε → σ → Prop} {s t u : σ}

/-- A single step is a trace. -/
theorem one {label : ε} (first : step s label t) : Trace step s [label] t := .step first (.done t)

/-- Traces go on where others end. -/
theorem append {before after : List ε} (first : Trace step s before t) (second : Trace step t after u) :
    Trace step s (before ++ after) u := by
  induction first with
  | done s => exact second
  | step taken _ inductionHypothesis => exact .step taken (inductionHypothesis second)

/-- What every step keeps together with what is noted of its label, a trace keeps. -/
theorem folds {γ : Type*} {note : γ → ε → γ} {invariant : γ → σ → Prop} {labels : List ε} {admits : ε → Prop}
    (trace : Trace step s labels t) (admitted : ∀ label ∈ labels, admits label)
    (kept : ∀ noted s label t, invariant noted s → admits label → step s label t →
      invariant (note noted label) t)
    {noted : γ} (holds : invariant noted s) : invariant (labels.foldl note noted) t := by
  induction trace generalizing noted with
  | done s => exact holds
  | step taken _ inductionHypothesis =>
    rw [List.forall_mem_cons] at admitted
    exact inductionHypothesis admitted.2 (kept _ _ _ _ holds admitted.1 taken)

/-- What every step with one of the labels keeps, the trace keeps. -/
theorem keeps {invariant : σ → Prop} {labels : List ε} (trace : Trace step s labels t)
    (kept : ∀ s, ∀ label ∈ labels, ∀ t, invariant s → step s label t → invariant t)
    (holds : invariant s) : invariant t := by
  induction trace with
  | done s => exact holds
  | step taken _ inductionHypothesis =>
    apply inductionHypothesis
    · exact fun s label member => kept s label (List.mem_cons_of_mem _ member)
    · exact kept _ _ List.mem_cons_self _ holds taken

end Trace

end Binkleyforce.Library
