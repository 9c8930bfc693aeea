import Mathlib.Data.List.Basic
import Mathlib.Tactic.Common

/-!
# Doubly linked lists that end

`Linked next prev p l e` says that the pointers lead through the nodes `l` both ways, where
`p` stands before the first node and `e` behind the last.  The node behind a place is the
`headD` of what is left, and the one before it the `getLastD` of what has been passed.

A list in two parts is two lists (`linked_append_iff`), and a list keeps its links where the
pointers of its nodes stay, its two ends apart (`Linked.congr`).
-/

namespace Hostboot.Lib

open List

variable {α : Type*}

/-- The pointers lead through the nodes, from what stands before to what stands behind. -/
def Linked (next prev : α → α) (p : α) : List α → α → Prop
  | [], _ => True
  | a :: l, e => prev a = p ∧ next a = l.headD e ∧ Linked next prev a l e

variable {next prev next' prev' : α → α} {p e p' e' a n : α} {l l1 l2 : List α}

theorem linked_append_iff :
    Linked next prev p (l1 ++ l2) e ↔
      Linked next prev p l1 (l2.headD e) ∧ Linked next prev (l1.getLastD p) l2 e := by
  induction l1 generalizing p with
  | nil =>
    rw [nil_append, getLastD_nil]
    exact ⟨fun h => ⟨trivial, h⟩, fun h => h.2⟩
  | cons a l1 ih =>
    have hhead : (l1 ++ l2).headD e = l1.headD (l2.headD e) := by
      cases l1 <;> rfl
    rw [cons_append, Linked, Linked, ih, hhead, getLastD_cons, and_assoc, and_assoc]

theorem Linked.first (h : Linked next prev p l e) (ha : l.head? = some a) : prev a = p := by
  cases l with
  | nil => exact absurd ha (by simp)
  | cons b l =>
    obtain rfl := Option.some.inj ha
    exact h.1

theorem Linked.last (h : Linked next prev p l e) (ha : l.getLast? = some a) : next a = e := by
  have hsplit : l = l.dropLast ++ [a] := (dropLast_append_getLast? a ha).symm
  rw [hsplit] at h
  exact (linked_append_iff.1 h).2.2.1

theorem getLastD_mem_of_ne_nil (h : l ≠ []) (p : α) : l.getLastD p ∈ l := by
  rw [getLastD_eq_getLast?, getLast?_eq_some_getLast h, Option.getD_some]
  exact getLast_mem h

theorem getLastD_of_getLast? (h : l.getLast? = some a) (p : α) : l.getLastD p = a := by
  rw [getLastD_eq_getLast?, h, Option.getD_some]

theorem ne_last_of_mem_dropLast (hnodup : l.Nodup) (hn : n ∈ l.dropLast)
    (ha : l.getLast? = some a) : n ≠ a := by
  rintro rfl
  have hsplit : l = l.dropLast ++ [n] := (dropLast_append_getLast? n ha).symm
  rw [hsplit] at hnodup
  exact (nodup_append.mp hnodup).2.2 n hn n mem_cons_self rfl

/-- The links stay where the pointers do.  What stands before the first node and behind the
last one may change. -/
theorem Linked.congr (h : Linked next prev p l e)
    (hfirst : ∀ a, l.head? = some a → prev' a = p')
    (hprev : ∀ a ∈ l.tail, prev' a = prev a)
    (hlast : ∀ a, l.getLast? = some a → next' a = e')
    (hnext : ∀ a ∈ l.dropLast, next' a = next a) :
    Linked next' prev' p' l e' := by
  induction l generalizing p p' with
  | nil => trivial
  | cons a l ih =>
    obtain ⟨-, hn, hl⟩ := h
    cases l with
    | nil => exact ⟨hfirst a rfl, hlast a rfl, trivial⟩
    | cons b l =>
      refine ⟨hfirst a rfl, ?_, ?_⟩
      · rw [hnext a (by simp), hn]
        rfl
      · refine ih hl (fun x hx => ?_) (fun x hx => ?_) (fun x hx => ?_) fun x hx => ?_
        · obtain rfl := Option.some.inj hx
          rw [hprev b (by simp)]
          exact hl.1
        · exact hprev x (mem_cons_of_mem b hx)
        · exact hlast x (by rw [getLast?_cons_cons]; exact hx)
        · exact hnext x (by rw [dropLast_cons_cons]; exact mem_cons_of_mem a hx)

end Hostboot.Lib
