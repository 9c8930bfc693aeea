import Mathlib.Data.List.Basic

/-!
# Lists searched by a key

A list of outstanding objects is read through a filter: the objects of one
key.  The lemmas say what a filter sees of a removal, by value (`erase`) or by
position (`eraseIdx`).
-/

namespace Hostboot.Lib.Lists

open List

variable {α : Type*}

section Erase

variable [DecidableEq α]

theorem filter_erase_head {p : α → Bool} {l rest : List α} {x : α}
    (h : l.filter p = x :: rest) : (l.erase x).filter p = rest := by
  rw [← erase_filter, h, erase_cons_head]

theorem filter_erase_of_not {p : α → Bool} {x : α} (hx : p x = false) (l : List α) :
    (l.erase x).filter p = l.filter p := by
  rw [← erase_filter]
  apply erase_of_not_mem
  intro hmem
  rw [(mem_filter.mp hmem).2] at hx
  exact Bool.false_ne_true hx.symm

theorem countP_erase_add {p : α → Bool} {l : List α} {x : α} (hx : x ∈ l) :
    (l.erase x).countP p + (if p x = true then 1 else 0) = l.countP p := by
  rw [(perm_cons_erase hx).countP_eq p, countP_cons]

end Erase

theorem filter_map_update {κ : Type*} [DecidableEq κ] (key : α → κ) (f : α → α)
    (hf : ∀ x, key (f x) = key x) (l : List α) (t t' : κ) :
    (l.map fun x => if key x = t then f x else x).filter (fun x => key x = t')
      = if t' = t then (l.filter fun x => key x = t).map f else l.filter fun x => key x = t' := by
  induction l with
  | nil => simp
  | cons x l ih =>
    rw [map_cons, filter_cons, ih]
    by_cases hx : key x = t
    · rw [if_pos hx, hf]
      by_cases ht : t' = t
      · simp [hx, ht]
      · have hne : ¬ t = t' := fun h => ht h.symm
        simp [hx, ht, hne]
    · rw [if_neg hx]
      by_cases ht : t' = t
      · simp [hx, ht]
      · by_cases hx' : key x = t' <;> simp [ht, hx']

theorem eraseIdx_of_getElem? {l : List α} {n : Nat} {x : α} (h : l[n]? = some x) :
    ∃ l1 l2, l = l1 ++ x :: l2 ∧ l.eraseIdx n = l1 ++ l2 := by
  obtain ⟨hn, rfl⟩ := List.getElem?_eq_some_iff.mp h
  refine ⟨l.take n, l.drop (n + 1), ?_, eraseIdx_eq_take_drop_succ l n⟩
  rw [← drop_eq_getElem_cons hn, take_append_drop]

theorem filter_eraseIdx_of_not {p : α → Bool} {l : List α} {n : Nat} {x : α}
    (h : l[n]? = some x) (hx : p x = false) : (l.eraseIdx n).filter p = l.filter p := by
  obtain ⟨l1, l2, hl, herase⟩ := eraseIdx_of_getElem? h
  rw [herase, hl]
  simp [hx]

theorem filter_eraseIdx_of_length {p : α → Bool} {l : List α} {n : Nat} {x : α}
    (h : l[n]? = some x) (hx : p x = true) (hone : (l.filter p).length ≤ 1) :
    (l.eraseIdx n).filter p = [] := by
  obtain ⟨l1, l2, hl, herase⟩ := eraseIdx_of_getElem? h
  rw [hl, filter_append, filter_cons_of_pos hx, length_append,
    length_cons] at hone
  rw [herase, filter_append, append_eq_nil_iff, ← length_eq_zero_iff,
    ← length_eq_zero_iff]
  omega

theorem insertIdx_middle (a b : List α) (x : α) : (a ++ b).insertIdx a.length x = a ++ x :: b := by
  induction a with
  | nil => rfl
  | cons y a ih => rw [cons_append, length_cons, insertIdx_succ_cons, ih,
      cons_append]

end Hostboot.Lib.Lists
