import Mathlib.Algebra.Group.Nat.Defs
import Mathlib.Data.List.Basic
import Mathlib.Data.List.Perm.Basic

/-!
# The kernel's intrusive containers, seen as lists

`src/include/util/lockfree/stack.H` and `src/include/util/locked/` hold the
containers of the kernel.  They are intrusive: the links live in the
elements.  Here each container is the list of its elements, in link order
from `head`.

* `Stack` keeps pointers through `AbaPtr`, so an element is the low 32 bits
  of the pointer that was pushed, and a null element makes the stack look
  empty.  The header asks its users for pointers of 32 bits.
* `Queue` and `List` insert at `head` and remove at `tail`, the oldest
  element.  `List` also searches from `head`, so `find` answers the newest
  match.
* `PQueue` is a `Queue` that keeps the greatest key at `head` and the least at
  `tail`.
-/

namespace Hostboot.Util

/-- `AbaPtr::_getPtr`: the pointer part of an ABA value. -/
def getPtr (ptr : Nat) : Nat := ptr % 2 ^ 32

theorem getPtr_of_lt {ptr : Nat} (h : ptr < 2 ^ 32) : getPtr ptr = ptr :=
  Nat.mod_eq_of_lt h

namespace Stack

/-- `Stack::push` of a pointer. -/
def push (stack : List Nat) (p : Nat) : List Nat := getPtr p :: stack

/-- `Stack::pop`: the first element and the rest, or nothing when the head
pointer is null. -/
def pop : List Nat → Option (Nat × List Nat)
  | [] => none
  | p :: rest => if p = 0 then none else some (p, rest)

theorem pop_eq_some {stack rest : List Nat} {p : Nat} (h : pop stack = some (p, rest)) :
    stack = p :: rest ∧ p ≠ 0 := by
  cases stack with
  | nil => simp [pop] at h
  | cons q qs =>
    simp only [pop] at h
    split at h
    · simp at h
    · rename_i hq
      simp only [Option.some.injEq, Prod.mk.injEq] at h
      obtain ⟨rfl, rfl⟩ := h
      exact ⟨rfl, hq⟩

theorem pop_eq_none {stack : List Nat} (hne : ∀ p ∈ stack, p ≠ 0) (h : pop stack = none) :
    stack = [] := by
  cases stack with
  | nil => rfl
  | cons q qs => simp [pop, hne q (by simp)] at h

end Stack

namespace Queue

variable {α : Type*}

def insert (queue : List α) (item : α) : List α := item :: queue

/-- `Queue::remove`: take the element at the tail. -/
def remove (queue : List α) : Option (α × List α) :=
  match queue.getLast? with
  | none => none
  | some item => some (item, queue.dropLast)

theorem eq_concat_of_getLast? {queue : List α} {item : α}
    (h : queue.getLast? = some item) : queue = queue.dropLast ++ [item] := by
  rcases List.eq_nil_or_concat queue with rfl | ⟨init, last, rfl⟩
  · simp at h
  · simp_all

theorem remove_eq_some {queue rest : List α} {item : α}
    (h : remove queue = some (item, rest)) : queue = rest ++ [item] := by
  unfold remove at h
  cases hlast : queue.getLast? with
  | none => simp [hlast] at h
  | some last =>
    simp only [hlast, Option.some.injEq, Prod.mk.injEq] at h
    obtain ⟨rfl, rfl⟩ := h
    exact eq_concat_of_getLast? hlast

theorem remove_eq_none {queue : List α} (h : remove queue = none) : queue = [] := by
  unfold remove at h
  cases hlast : queue.getLast? with
  | none => exact List.getLast?_eq_none_iff.mp hlast
  | some last => simp [hlast] at h

end Queue

namespace PQueue

/-- `PQueue::bubbleUp` of an item that stands before `queue`: it moves
towards the tail past every greater key. -/
def bubbleUp (item : Nat) : List Nat → List Nat
  | [] => [item]
  | next :: rest => if next ≤ item then item :: next :: rest else next :: bubbleUp item rest

/-- `PQueue::insert` of an item that is its own key. -/
def insert (queue : List Nat) (item : Nat) : List Nat := bubbleUp item queue

/-- `PQueue::remove_if`: take the element at the tail when its key is at
most `key`. -/
def removeIf (queue : List Nat) (key : Nat) : Option Nat × List Nat :=
  match queue.getLast? with
  | none => (none, queue)
  | some item => if item ≤ key then (some item, queue.dropLast) else (none, queue)

theorem bubbleUp_perm (item : Nat) (queue : List Nat) :
    (bubbleUp item queue).Perm (item :: queue) := by
  induction queue with
  | nil => exact List.Perm.refl _
  | cons next rest ih =>
    rw [bubbleUp]
    split
    · exact List.Perm.refl _
    · exact (ih.cons next).trans (List.Perm.swap item next rest)

theorem insert_perm (queue : List Nat) (item : Nat) :
    (insert queue item).Perm (item :: queue) :=
  bubbleUp_perm item queue

theorem removeIf_cases (queue : List Nat) (key : Nat) :
    (∃ item, removeIf queue key = (some item, queue.dropLast) ∧
        queue = queue.dropLast ++ [item] ∧ item ≤ key) ∨
      removeIf queue key = (none, queue) := by
  unfold removeIf
  cases hlast : queue.getLast? with
  | none => exact Or.inr rfl
  | some last =>
    by_cases hle : last ≤ key
    · exact Or.inl ⟨last, by simp [hle], Queue.eq_concat_of_getLast? hlast, hle⟩
    · exact Or.inr (by simp [hle])

end PQueue

end Hostboot.Util
