import Mathlib.Algebra.BigOperators.Group.Finset.Basic
import Mathlib.Algebra.Order.BigOperators.Group.Multiset
import Mathlib.Data.Multiset.Basic
import Mathlib.Tactic.Abel

/-!
# Arrays of free lists and what they hold

A segregated-fit allocator keeps an array of free lists, one for each size
class.  `content n w h` adds up what the first `n` lists of `h` hold, where
`w k x` is what one element `x` of list `k` stands for.  The target is any
commutative monoid: a multiset of pages, a multiset of chunks, a number of
bytes.

The lemmas say how `content` changes when one list changes.  A conservation
proof of an allocator never looks at the other lists.
-/

namespace Hostboot.Lib.Buckets

variable {α M : Type*} [AddCommMonoid M]

/-- What one free list of size class `k` holds. -/
def listContent (w : Nat → α → M) (k : Nat) (l : List α) : M :=
  (l.map (w k)).sum

/-- What the first `n` free lists hold together. -/
def content (n : Nat) (w : Nat → α → M) (h : Nat → List α) : M :=
  ∑ k ∈ Finset.range n, listContent w k (h k)

@[simp] theorem listContent_nil (w : Nat → α → M) (k : Nat) :
    listContent w k [] = 0 := by
  simp [listContent]

@[simp] theorem listContent_cons (w : Nat → α → M) (k : Nat) (x : α) (l : List α) :
    listContent w k (x :: l) = w k x + listContent w k l := by
  simp [listContent]

@[simp] theorem listContent_append (w : Nat → α → M) (k : Nat) (l l' : List α) :
    listContent w k (l ++ l') = listContent w k l + listContent w k l' := by
  simp [listContent]

theorem listContent_perm (w : Nat → α → M) (k : Nat) {l l' : List α} (h : l.Perm l') :
    listContent w k l = listContent w k l' :=
  (h.map (w k)).sum_eq

theorem content_empty (n : Nat) (w : Nat → α → M) :
    content n w (fun _ => []) = 0 := by
  simp [content]

theorem content_split (n : Nat) (w : Nat → α → M) (h : Nat → List α) {k : Nat} (hk : k < n) :
    content n w h
      = listContent w k (h k) + ∑ j ∈ (Finset.range n).erase k, listContent w j (h j) :=
  (Finset.add_sum_erase _ _ (Finset.mem_range.mpr hk)).symm

theorem content_rest_update (n : Nat) (w : Nat → α → M) (h : Nat → List α) (k : Nat)
    (l : List α) :
    ∑ j ∈ (Finset.range n).erase k, listContent w j (Function.update h k l j)
      = ∑ j ∈ (Finset.range n).erase k, listContent w j (h j) := by
  apply Finset.sum_congr rfl
  intro j hj
  rw [Function.update_of_ne (Finset.ne_of_mem_erase hj)]

theorem content_update (n : Nat) (w : Nat → α → M) (h : Nat → List α) {k : Nat}
    (hk : k < n) (l : List α) :
    content n w (Function.update h k l) + listContent w k (h k)
      = content n w h + listContent w k l := by
  rw [content_split n w _ hk, content_split n w h hk, content_rest_update,
    Function.update_self]
  abel

theorem content_push (n : Nat) (w : Nat → α → M) (h : Nat → List α) {k : Nat}
    (hk : k < n) (x : α) :
    content n w (Function.update h k (x :: h k)) = content n w h + w k x := by
  rw [content_split n w _ hk, content_split n w h hk, content_rest_update,
    Function.update_self, listContent_cons]
  abel

theorem content_pop (n : Nat) (w : Nat → α → M) (h : Nat → List α) {k : Nat}
    (hk : k < n) {x : α} {l : List α} (hl : h k = x :: l) :
    content n w (Function.update h k l) + w k x = content n w h := by
  have hpush := content_push n w (Function.update h k l) hk x
  rw [Function.update_self, Function.update_idem, ← hl, Function.update_eq_self] at hpush
  exact hpush.symm

/-! ## Free lists of multisets -/

section Multiset

variable {β : Type*}

theorem mem_listContent {w : Nat → α → Multiset β} {k : Nat} {l : List α} {y : β}
    (h : y ∈ listContent w k l) : ∃ x ∈ l, y ∈ w k x := by
  induction l with
  | nil => simp at h
  | cons x l ih =>
    rw [listContent_cons, Multiset.mem_add] at h
    rcases h with h | h
    · exact ⟨x, by simp, h⟩
    · obtain ⟨x', hx', hy⟩ := ih h
      exact ⟨x', by simp [hx'], hy⟩

theorem mem_listContent_of_mem {w : Nat → α → Multiset β} {k : Nat} {l : List α} {x : α}
    (hx : x ∈ l) {y : β} (hy : y ∈ w k x) : y ∈ listContent w k l := by
  induction l with
  | nil => simp at hx
  | cons x' l ih =>
    rw [listContent_cons, Multiset.mem_add]
    rcases List.mem_cons.mp hx with rfl | hx
    · exact Or.inl hy
    · exact Or.inr (ih hx)

theorem mem_content {n : Nat} {w : Nat → α → Multiset β} {h : Nat → List α} {k : Nat}
    (hk : k < n) {x : α} (hx : x ∈ h k) {y : β} (hy : y ∈ w k x) : y ∈ content n w h := by
  rw [content_split n w h hk, Multiset.mem_add]
  exact Or.inl (mem_listContent_of_mem hx hy)

end Multiset

end Hostboot.Lib.Buckets
