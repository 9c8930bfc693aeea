import Mathlib.Logic.Relation

/-!
# Labelled runs and their invariants

A system is a step relation `step : σ → ℓ → σ → Prop` between states, with a
label on each step.  `Run step s0 ls s` says that the labels `ls`, oldest
first, lead from `s0` to `s`.

Every safety result of the development has the same shape: a property holds
at the start, one step keeps it, so it holds at the end of every run.
`Run.invariant` is that induction, and `Run.invariant_trace` is the same for a
property that also reads the labels so far.
-/

namespace Hostboot.Lib

variable {σ ℓ : Type*}

/-- The labels `ls`, oldest first, lead from `s0` to the final state. -/
inductive Run (step : σ → ℓ → σ → Prop) (s0 : σ) : List ℓ → σ → Prop
  | nil : Run step s0 [] s0
  | snoc {ls : List ℓ} {s s' : σ} {l : ℓ} :
      Run step s0 ls s → step s l s' → Run step s0 (ls ++ [l]) s'

namespace Run

variable {step : σ → ℓ → σ → Prop} {s0 : σ}

theorem cons {s1 s : σ} {l : ℓ} {ls : List ℓ} (hstep : step s0 l s1) (hrun : Run step s1 ls s) :
    Run step s0 (l :: ls) s := by
  induction hrun with
  | nil => exact .snoc .nil hstep
  | snoc _ hs ih => exact .snoc ih hs

theorem append {s1 s : σ} {ls ls' : List ℓ} (hrun : Run step s0 ls s1)
    (hrun' : Run step s1 ls' s) : Run step s0 (ls ++ ls') s := by
  induction hrun' with
  | nil =>
    rw [List.append_nil]
    exact hrun
  | snoc _ hs ih =>
    rw [← List.append_assoc]
    exact .snoc ih hs

/-- A property of the trace and the state that every step extends holds at
the end of every run. -/
theorem invariant_trace {Inv : List ℓ → σ → Prop} (h0 : Inv [] s0)
    (hstep : ∀ ls s l s', Inv ls s → step s l s' → Inv (ls ++ [l]) s')
    {ls : List ℓ} {s : σ} (hrun : Run step s0 ls s) : Inv ls s := by
  induction hrun with
  | nil => exact h0
  | snoc _ hs ih => exact hstep _ _ _ _ ih hs

theorem invariant {Inv : σ → Prop} (h0 : Inv s0)
    (hstep : ∀ s l s', Inv s → step s l s' → Inv s')
    {ls : List ℓ} {s : σ} (hrun : Run step s0 ls s) : Inv s := by
  induction hrun with
  | nil => exact h0
  | snoc _ hs ih => exact hstep _ _ _ ih hs

theorem of_foldlM {f : σ → ℓ → Option σ} (hf : ∀ s l s', f s l = some s' → step s l s')
    {ls : List ℓ} {s : σ} (hfold : ls.foldlM f s0 = some s) : Run step s0 ls s := by
  induction ls generalizing s0 with
  | nil =>
    rw [List.foldlM_nil] at hfold
    cases hfold
    exact .nil
  | cons l ls ih =>
    rw [List.foldlM_cons] at hfold
    cases hl : f s0 l with
    | none =>
      rw [hl] at hfold
      exact absurd hfold (by simp)
    | some s1 =>
      rw [hl] at hfold
      exact .cons (hf s0 l s1 hl) (ih hfold)

end Run

end Hostboot.Lib
