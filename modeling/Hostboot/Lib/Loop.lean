import Mathlib.Tactic.Common

/-!
# Loops

The body of a loop is a function from a state to a result, when the loop is
left, or to the next state.  `Loop.run` gives it a number of rounds, and
`Loop.Returns` says that it ends.

The lemmas go round by round: `returns_of_done` and `returns_of_next` put a
round in front, and `Returns.unique` makes the result one.
-/

namespace Hostboot.Lib.Loop

variable {σ ρ : Type*}

/-- At most so many rounds of the loop. -/
def run (body : σ → ρ ⊕ σ) : Nat → σ → Option ρ
  | 0, _ => none
  | rounds + 1, s =>
    match body s with
    | .inl r => some r
    | .inr s' => run body rounds s'

/-- The loop ends with this result. -/
def Returns (body : σ → ρ ⊕ σ) (s : σ) (r : ρ) : Prop := ∃ rounds, run body rounds s = some r

variable {body : σ → ρ ⊕ σ} {s s' : σ} {r r' : ρ}

theorem returns_of_done (h : body s = .inl r) : Returns body s r' ↔ r' = r := by
  constructor
  · rintro ⟨rounds, hrun⟩
    cases rounds with
    | zero => cases hrun
    | succ rounds =>
      rw [run, h] at hrun
      exact (Option.some.inj hrun).symm
  · rintro rfl
    exact ⟨1, by rw [run, h]⟩

theorem returns_of_next (h : body s = .inr s') : Returns body s r ↔ Returns body s' r := by
  constructor
  · rintro ⟨rounds, hrun⟩
    cases rounds with
    | zero => cases hrun
    | succ rounds =>
      rw [run, h] at hrun
      exact ⟨rounds, hrun⟩
  · rintro ⟨rounds, hrun⟩
    exact ⟨rounds + 1, by rw [run, h]; exact hrun⟩

theorem not_returns_of_stuck (h : body s = .inr s) : ¬Returns body s r := by
  rintro ⟨rounds, hrun⟩
  induction rounds with
  | zero => cases hrun
  | succ rounds ih =>
    rw [run, h] at hrun
    exact ih hrun

theorem run_of_le {m n : Nat} (hle : m ≤ n) (h : run body m s = some r) : run body n s = some r := by
  induction m generalizing n s with
  | zero => cases h
  | succ m ih =>
    obtain ⟨n, rfl⟩ := Nat.exists_eq_add_of_le hle
    rw [show m + 1 + n = m + n + 1 by omega]
    rw [run] at h ⊢
    cases hbody : body s with
    | inl r => rwa [hbody] at h
    | inr s' =>
      rw [hbody] at h
      exact ih (Nat.le_add_right m n) h

theorem Returns.unique (h : Returns body s r) (h' : Returns body s r') : r = r' := by
  obtain ⟨m, hm⟩ := h
  obtain ⟨n, hn⟩ := h'
  have hm := run_of_le (Nat.le_max_left m n) hm
  rw [run_of_le (Nat.le_max_right m n) hn] at hm
  exact (Option.some.inj hm).symm

end Hostboot.Lib.Loop
