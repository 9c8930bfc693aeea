import Mathlib.Data.List.Perm.Basic
import Mathlib.Tactic.Common

/-!
# The quick sort behind `std::sort`

`sort` is the overload of `Util::__Util_QSort_Impl::sort` with a comparison.
It works in place on a range of iterators; here a range is the list of its
elements, and each exchange of two elements is written as what it does to that
list.
-/

namespace Hostboot.Util.QSort

open List

variable {α : Type*}

/-! ## The functions of the source -/

/-- The partitioning loop.  The elements before `division` are `less`, those
from there to `pos` are `rest`, and the third list runs from `pos` to the
pivot. -/
def partition (pred : α → α → Bool) (pivot : α) : List α → List α → List α → List α × List α
  | less, rest, [] => (less, rest)
  | less, rest, x :: xs =>
    if pred x pivot then
      match rest with
      | [] => partition pred pivot (less ++ [x]) [] xs
      | y :: rest => partition pred pivot (less ++ [x]) (rest ++ [y]) xs
    else partition pred pivot less (rest ++ [x]) xs

/-- What stands behind the division line after the pivot has been exchanged
with the element on the line. -/
def behind : List α → List α
  | [] => []
  | y :: rest => rest ++ [y]

/-- The range without its last position, after the pivot has been exchanged
with that position. -/
def body (l : List α) (first : α) : List α := l.dropLast.set (l.length / 2) (l.getLastD first)

theorem partition_length (pred : α → α → Bool) (pivot : α) (less rest xs : List α) :
    (partition pred pivot less rest xs).1.length + (partition pred pivot less rest xs).2.length
      = less.length + rest.length + xs.length := by
  fun_induction partition pred pivot less rest xs with
  | case1 less rest => rfl
  | case2 less x xs hpred ih =>
    rw [ih]
    simp only [length_append, length_cons, length_nil]
    omega
  | case3 less x xs hpred y rest ih =>
    rw [ih]
    simp only [length_append, length_cons, length_nil]
    omega
  | case4 less rest x xs hpred ih =>
    rw [ih]
    simp only [length_append, length_cons, length_nil]
    omega

theorem length_behind (l : List α) : (behind l).length = l.length := by
  cases l with
  | nil => rfl
  | cons y rest => simp [behind]

theorem length_body (l : List α) (first : α) : (body l first).length = l.length - 1 := by
  simp [body]

def sort (pred : α → α → Bool) : List α → List α
  | [] => []
  | [a] => [a]
  | [a, b] => if pred b a then [b, a] else [a, b]
  | a :: b :: c :: l =>
    let pivot := (a :: b :: c :: l).getD ((a :: b :: c :: l).length / 2) a
    let parts := partition pred pivot [] [] (body (a :: b :: c :: l) a)
    sort pred parts.1 ++ pivot :: sort pred (behind parts.2)
termination_by l => l.length
decreasing_by
  all_goals
    have hlen := partition_length pred
      ((a :: b :: c :: l).getD ((a :: b :: c :: l).length / 2) a) [] []
      (body (a :: b :: c :: l) a)
    rw [length_body] at hlen
    simp only [length_behind, length_cons, length_nil] at hlen ⊢
    omega

/-! ## The order of the elements -/

theorem perm_behind (l : List α) : (behind l).Perm l := by
  cases l with
  | nil => exact .nil
  | cons y rest => exact perm_append_comm

theorem partition_perm (pred : α → α → Bool) (pivot : α) (less rest xs : List α) :
    ((partition pred pivot less rest xs).1 ++ (partition pred pivot less rest xs).2).Perm
      (less ++ rest ++ xs) := by
  fun_induction partition pred pivot less rest xs with
  | case1 less rest => simp
  | case2 less x xs hpred ih => simpa using ih
  | case3 less x xs hpred y rest ih =>
    refine ih.trans ?_
    simp only [append_assoc, cons_append, nil_append]
    refine List.Perm.append_left less ?_
    show (x :: (rest ++ y :: xs)).Perm (y :: (rest ++ x :: xs))
    exact (List.Perm.cons x perm_middle).trans
      ((List.Perm.swap y x _).trans (List.Perm.cons y perm_middle.symm))
  | case4 less rest x xs hpred ih => simpa using ih

theorem perm_set (l : List α) (i : Nat) (hi : i < l.length) (d y : α) :
    (l.getD i d :: l.set i y).Perm (y :: l) := by
  induction l generalizing i with
  | nil => exact absurd hi (Nat.not_lt_zero _)
  | cons x l ih =>
    cases i with
    | zero => exact List.Perm.swap y x l
    | succ i =>
      show (l.getD i d :: x :: l.set i y).Perm (y :: x :: l)
      exact (List.Perm.swap x _ _).trans
        (((ih i (Nat.lt_of_succ_lt_succ hi)).cons x).trans (List.Perm.swap y x l))

theorem perm_body (a b c : α) (l : List α) :
    ((a :: b :: c :: l).getD ((a :: b :: c :: l).length / 2) a :: body (a :: b :: c :: l) a).Perm
      (a :: b :: c :: l) := by
  have hsplit : a :: b :: c :: l
      = (a :: b :: c :: l).dropLast ++ [(a :: b :: c :: l).getLastD a] := by
    rw [getLastD_eq_getLast?, getLast?_eq_some_getLast (cons_ne_nil _ _)]
    exact (dropLast_append_getLast (cons_ne_nil _ _)).symm
  have hi : (a :: b :: c :: l).length / 2 < (a :: b :: c :: l).dropLast.length := by
    simp only [length_dropLast, length_cons]
    omega
  have hget : (a :: b :: c :: l).getD ((a :: b :: c :: l).length / 2) a
      = (a :: b :: c :: l).dropLast.getD ((a :: b :: c :: l).length / 2) a := by
    rw [getD_eq_getElem?_getD, getD_eq_getElem?_getD, getElem?_dropLast]
    rw [length_dropLast] at hi
    rw [if_pos hi]
  rw [hget]
  refine (perm_set _ _ hi a _).trans ?_
  conv_rhs => rw [hsplit]
  exact (perm_append_singleton _ _).symm

/-- The sort loses nothing and invents nothing, whatever the comparison is. -/
theorem sort_perm (pred : α → α → Bool) (l : List α) : (sort pred l).Perm l := by
  fun_induction sort pred l with
  | case1 => exact .nil
  | case2 a => exact .refl _
  | case3 a b hpred => exact .swap a b []
  | case4 a b hpred => exact .refl _
  | case5 a b c l pivot parts ih1 ih2 =>
    have hparts : (parts.1 ++ parts.2).Perm (body (a :: b :: c :: l) a) := by
      simpa using partition_perm pred pivot [] [] (body (a :: b :: c :: l) a)
    refine (ih1.append (ih2.cons pivot)).trans (perm_middle.trans ?_)
    refine (List.Perm.cons pivot ?_).trans (perm_body a b c l)
    exact ((perm_behind parts.2).append_left parts.1).trans hparts

theorem partition_spec (pred : α → α → Bool) (pivot : α) (less rest xs : List α)
    (hless : ∀ x ∈ less, pred x pivot = true) (hrest : ∀ x ∈ rest, pred x pivot = false) :
    (∀ x ∈ (partition pred pivot less rest xs).1, pred x pivot = true) ∧
      ∀ x ∈ (partition pred pivot less rest xs).2, pred x pivot = false := by
  fun_induction partition pred pivot less rest xs with
  | case1 less rest => exact ⟨hless, hrest⟩
  | case2 less x xs hpred ih =>
    refine ih (fun z hz => ?_) hrest
    rcases mem_append.mp hz with hz | hz
    · exact hless z hz
    · rw [mem_singleton.mp hz]
      exact hpred
  | case3 less x xs hpred y rest ih =>
    refine ih (fun z hz => ?_) (fun z hz => hrest z ?_)
    · rcases mem_append.mp hz with hz | hz
      · exact hless z hz
      · rw [mem_singleton.mp hz]
        exact hpred
    · exact perm_append_comm.mem_iff.mp hz
  | case4 less rest x xs hpred ih =>
    refine ih hless (fun z hz => ?_)
    rcases mem_append.mp hz with hz | hz
    · exact hrest z hz
    · rw [mem_singleton.mp hz]
      exact Bool.eq_false_iff.mpr hpred

/-- With a strict weak order, no element comes before one that is less. -/
theorem sort_pairwise (pred : α → α → Bool) (l : List α)
    (hasymm : ∀ a b, pred a b = true → pred b a = false)
    (htrans : ∀ a b c, pred b a = false → pred c b = false → pred c a = false) :
    (sort pred l).Pairwise fun a b => pred b a = false := by
  fun_induction sort pred l with
  | case1 => exact .nil
  | case2 a => exact pairwise_singleton _ _
  | case3 a b hpred => exact pairwise_pair.mpr (hasymm _ _ hpred)
  | case4 a b hpred => exact pairwise_pair.mpr (Bool.eq_false_iff.mpr hpred)
  | case5 a b c l pivot parts ih1 ih2 =>
    have hspec := partition_spec pred pivot [] [] (body (a :: b :: c :: l) a)
      (fun x hx => absurd hx not_mem_nil) (fun x hx => absurd hx not_mem_nil)
    have hbefore : ∀ x ∈ sort pred parts.1, pred pivot x = false := fun x hx =>
      hasymm _ _ (hspec.1 x ((sort_perm pred parts.1).mem_iff.mp hx))
    have hafter : ∀ x ∈ sort pred (behind parts.2), pred x pivot = false := fun x hx =>
      hspec.2 x ((perm_behind _).mem_iff.mp ((sort_perm pred _).mem_iff.mp hx))
    refine pairwise_append.mpr ⟨ih1, pairwise_cons.mpr ⟨hafter, ih2⟩, ?_⟩
    intro x hx y hy
    rcases mem_cons.mp hy with rfl | hy
    · exact hbefore x hx
    · exact htrans x pivot y (hbefore x hx) (hafter y hy)

theorem partition_congr {pred pred' : α → α → Bool} {pivot : α} {less rest xs : List α}
    (h : ∀ x ∈ xs, pred x pivot = pred' x pivot) :
    partition pred pivot less rest xs = partition pred' pivot less rest xs := by
  induction xs generalizing less rest with
  | nil => rfl
  | cons x xs ih =>
    have hrest := fun z hz => h z (mem_cons_of_mem x hz)
    unfold partition
    rw [h x mem_cons_self]
    split
    · cases rest with
      | nil => exact ih hrest
      | cons y rest => exact ih hrest
    · exact ih hrest

theorem sort_congr {pred pred' : α → α → Bool} {l : List α}
    (h : l.Pairwise fun a b => pred a b = pred' a b ∧ pred b a = pred' b a) :
    sort pred l = sort pred' l := by
  fun_induction sort pred l with
  | case1 => rw [sort]
  | case2 a => rw [sort]
  | case3 a b hpred => rw [sort, ← (pairwise_pair.mp h).2, if_pos hpred]
  | case4 a b hpred => rw [sort, ← (pairwise_pair.mp h).2, if_neg hpred]
  | case5 a b c l pivot parts ih1 ih2 =>
    have hall := ((perm_body a b c l).pairwise_iff fun h => ⟨h.2, h.1⟩).mpr h
    obtain ⟨hpivot, hbody⟩ := pairwise_cons.mp hall
    have hparts : (parts.1 ++ parts.2).Perm (body (a :: b :: c :: l) a) := by
      simpa using partition_perm pred pivot [] [] (body (a :: b :: c :: l) a)
    have happend := (hparts.pairwise_iff fun h => ⟨h.2, h.1⟩).mpr hbody
    obtain ⟨hless, hrest, -⟩ := pairwise_append.mp happend
    have hbehind := ((perm_behind parts.2).pairwise_iff fun h => ⟨h.2, h.1⟩).mpr hrest
    conv_rhs => rw [sort]
    rw [← partition_congr fun x hx => (hpivot x hx).2, ← ih1 hless, ← ih2 hbehind]

end Hostboot.Util.QSort
