import Mathlib.Data.List.Chain
import Mathlib.Data.List.Nodup
import Mathlib.Data.List.Perm.Basic
import Mathlib.Tactic.Common

/-!
# Rings of nodes

`next` and `prev` are the pointers that the nodes of doubly linked lists have.
`Chained` says of a list of nodes that the pointers lead through it both ways, and
`LinkedRing next prev s l` that they lead from the node `s` through the list `l` back to
`s`.  The node behind a place in a list is the `headD` of what is left, and the node
before it the `getLastD` of what has been passed.

The lemmas do two things:

* split and join a chain at a place (`chained_append_iff`);
* carry a chain over to other pointers (`Chained.congr`).
-/

namespace Hostboot.Lib

open List

variable {α ι : Type*}

/-- The pointers lead from `a` to `b` and back. -/
def Adj (next prev : α → α) (a b : α) : Prop := next a = b ∧ prev b = a

instance [DecidableEq α] (next prev : α → α) (a b : α) : Decidable (Adj next prev a b) :=
  inferInstanceAs (Decidable (_ ∧ _))

/-- The pointers lead through the list, both ways. -/
abbrev Chained (next prev : α → α) (l : List α) : Prop := l.IsChain (Adj next prev)

variable {next prev next' prev' : α → α}

theorem headD_mem (l : List α) (e : α) : l.headD e ∈ l ++ [e] := by
  cases l <;> simp

theorem getLastD_mem (l : List α) (a : α) : l.getLastD a ∈ a :: l := by
  rw [getLastD_eq_getLast?]
  cases h : l.getLast? with
  | none => exact mem_cons_self
  | some x => exact mem_cons_of_mem a (mem_of_getLast? h)

variable {l1 l2 xs p z : List α} {a e x s : α}

theorem chained_append_iff :
    Chained next prev ((a :: l1) ++ (l2 ++ [e])) ↔
      Chained next prev (a :: l1) ∧ Chained next prev (l2 ++ [e]) ∧
        Adj next prev (l1.getLastD a) (l2.headD e) := by
  have hlast : (a :: l1).getLast? = some (l1.getLastD a) := by
    rw [getLast?_cons, getLastD_eq_getLast?]
  have hhead : (l2 ++ [e]).head? = some (l2.headD e) := by
    cases l2 <;> rfl
  rw [Chained, isChain_append, hlast, hhead]
  simp only [Option.mem_some_iff, forall_eq']

theorem chained_segment_iff :
    Chained next prev ((a :: (l1 ++ x :: xs ++ l2)) ++ [e]) ↔
      Chained next prev (a :: l1) ∧ Chained next prev (x :: xs) ∧
        Chained next prev (l2 ++ [e]) ∧ Adj next prev (l1.getLastD a) x ∧
        Adj next prev (xs.getLastD x) (l2.headD e) := by
  have hsplit : (a :: (l1 ++ x :: xs ++ l2)) ++ [e]
      = (a :: l1) ++ ((x :: xs ++ l2) ++ [e]) := by
    simp only [cons_append, append_assoc]
  rw [hsplit, chained_append_iff, append_assoc, chained_append_iff, cons_append,
    headD_cons]
  tauto

theorem chained_segments_iff {ys : List α} {y : α} :
    Chained next prev ((a :: (l1 ++ x :: xs ++ y :: ys ++ l2)) ++ [e]) ↔
      Chained next prev (a :: l1) ∧ Chained next prev (x :: xs) ∧ Chained next prev (y :: ys) ∧
        Chained next prev (l2 ++ [e]) ∧ Adj next prev (l1.getLastD a) x ∧
        Adj next prev (xs.getLastD x) y ∧ Adj next prev (ys.getLastD y) (l2.headD e) := by
  rw [append_assoc (l1 ++ x :: xs), chained_segment_iff, append_assoc (y :: ys),
    chained_append_iff, cons_append, headD_cons]
  tauto

/-- From the node `s` the pointers lead through the list and back to `s`. -/
structure LinkedRing (next prev : α → α) (s : α) (l : List α) : Prop where
  chained : Chained next prev ((s :: l) ++ [s])
  nodup : (s :: l).Nodup

/-- Rings that have no nodes in common. -/
structure LinkedRings (next prev : α → α) (head : ι → α) (ls : ι → List α) : Prop where
  ring : ∀ i, LinkedRing next prev (head i) (ls i)
  apart : ∀ i j, i ≠ j → (head i :: ls i).Disjoint (head j :: ls j)

theorem LinkedRing.adj (h : LinkedRing next prev s (l1 ++ l2)) :
    Adj next prev (l1.getLastD s) (l2.headD s) := by
  have hchain := h.chained
  rw [cons_append, append_assoc, ← cons_append] at hchain
  exact (chained_append_iff.1 hchain).2.2

theorem start_notMem (h : (s :: (p ++ z)).Nodup) :
    z.headD s ∉ p ∧ z.headD s ∉ (z ++ [s]).tail := by
  cases z with
  | nil =>
    simp only [append_nil, headD_nil, nil_append, tail_cons] at h ⊢
    exact ⟨(nodup_cons.mp h).1, not_mem_nil⟩
  | cons w z =>
    simp only [headD_cons, cons_append, tail_cons] at h ⊢
    grind

theorem middle_notMem (h : (s :: (p ++ x :: xs ++ z)).Nodup) :
    (x ∉ p ∧ z.headD s ∉ p) ∧ (x ∉ xs ∧ z.headD s ∉ xs) ∧
      (x ∉ (z ++ [s]).tail ∧ z.headD s ∉ (z ++ [s]).tail) := by
  cases z with
  | nil =>
    simp only [append_nil, headD_nil, nil_append, tail_cons] at h ⊢
    grind
  | cons w z =>
    simp only [headD_cons, cons_append, tail_cons] at h ⊢
    grind

theorem middle_ne (h : (s :: (p ++ x :: xs ++ z)).Nodup) :
    x ≠ z.headD s := by
  cases z with
  | nil =>
    simp only [append_nil, headD_nil] at h ⊢
    grind
  | cons w z =>
    simp only [headD_cons] at h ⊢
    grind

theorem starts_notMem {y : α} {ys : List α} (h : (s :: (p ++ x :: xs ++ y :: ys ++ z)).Nodup) :
    (x ∉ p ∧ y ∉ p ∧ z.headD s ∉ p) ∧ (x ∉ xs ∧ y ∉ xs ∧ z.headD s ∉ xs) ∧
      (x ∉ ys ∧ y ∉ ys ∧ z.headD s ∉ ys) ∧
      (x ∉ (z ++ [s]).tail ∧ y ∉ (z ++ [s]).tail ∧ z.headD s ∉ (z ++ [s]).tail) := by
  cases z with
  | nil =>
    simp only [append_nil, headD_nil, nil_append, tail_cons] at h ⊢
    grind
  | cons w z =>
    simp only [headD_cons, cons_append, tail_cons] at h ⊢
    grind

end Hostboot.Lib
