import Mathlib.Data.List.Basic
import Mathlib.Logic.Function.Basic
import Hostboot.Lib.Lists

/-!
# The futex manager

`FutexManager` of `src/kernel/futexmgr.C`.  One list holds the waiting tasks of
all futexes, with the address of the futex as key, and one lock guards the list.
`_wait` compares the futex with the expected value under the lock; other
processors can write the futex between the comparison and the insertion, but
nobody can look for waiters.  So `_wait` is two steps, `waitCompare` and
`waitInsert`, with the lock held in between.  `_wake` does not read a futex and is
one step.
-/

namespace Hostboot.Sync

open Hostboot.Lib List

/-- `_FutexWait_t`. -/
structure FutexWait where
  key : Nat
  task : Nat
  deriving DecidableEq, Repr

/-- The lock of the manager, with the task that holds it between two steps, and
the list of waiting tasks from its head. -/
structure FutexManager where
  ivLock : Option Nat
  ivList : List FutexWait
  deriving DecidableEq, Repr

namespace FutexManager

/-- The first part of `_wait` on a futex with value `addr`: `false` for
`EWOULDBLOCK`, `true` if the task goes on to sleep.  There is no result while the
lock is held. -/
def waitCompare (fm : FutexManager) (task addr val : Nat) : Option (FutexManager × Bool) :=
  if fm.ivLock.isSome then none
  else if addr ≠ val then some (fm, false)
  else some ({ fm with ivLock := some task }, true)

/-- The second part of `_wait`. -/
def waitInsert (fm : FutexManager) (task key : Nat) : FutexManager where
  ivLock := none
  ivList := ⟨key, task⟩ :: fm.ivList

/-- The first loop of `_wake`: at most `count` tasks are taken from the list. -/
def start (futex : Nat) : Nat → List FutexWait → List FutexWait × List Nat
  | 0, list => (list, [])
  | count + 1, list =>
    match list.find? (fun w => w.key = futex) with
    | none => (list, [])
    | some waiter =>
      let (rest, tasks) := start futex count (list.erase waiter)
      (rest, waiter.task :: tasks)

/-- The second loop of `_wake`: at most `count` tasks are moved to the second
futex. -/
def move (futex1 futex2 : Nat) : Nat → List FutexWait → List FutexWait
  | 0, list => list
  | count + 1, list =>
    match list.find? (fun w => w.key = futex1) with
    | none => list
    | some waiter =>
      move futex1 futex2 count ({ waiter with key := futex2 } :: list.erase waiter)

/-- `_wake`, with the tasks it starts.  There is no result while the lock is
held. -/
def wake (fm : FutexManager) (futex1 count1 : Nat) (futex2 : Option Nat) (count2 : Nat) :
    Option (FutexManager × List Nat) :=
  if fm.ivLock.isSome then none
  else
    let (list, tasks) := start futex1 count1 fm.ivList
    match futex2 with
    | none => some ({ fm with ivList := list }, tasks)
    | some futex2 => some ({ fm with ivList := move futex1 futex2 count2 list }, tasks)

/-- The waiting tasks of one futex, newest first. -/
def waiters (fm : FutexManager) (futex : Nat) : List Nat :=
  (fm.ivList.filter fun w => w.key = futex).map FutexWait.task

/-! ## What the loops do to the list -/

variable {futex : Nat} {fm fm' : FutexManager} {tasks : List Nat}

theorem find_spec {list : List FutexWait} {waiter : FutexWait}
    (hfind : list.find? (fun w => w.key = futex) = some waiter) :
    (∃ rest, list.filter (fun w => w.key = futex) = waiter :: rest ∧
      (list.erase waiter).filter (fun w => w.key = futex) = rest) ∧
      ∀ futex', futex' ≠ futex → (list.erase waiter).filter (fun w => w.key = futex')
        = list.filter fun w => w.key = futex' := by
  have hhead : (list.filter fun w => w.key = futex).head? = some waiter :=
    head?_filter.trans hfind
  obtain ⟨rest, hlist⟩ := head?_eq_some_iff.mp hhead
  have hkey : waiter.key = futex := by simpa using find?_some hfind
  refine ⟨⟨rest, hlist, Lists.filter_erase_head hlist⟩, fun futex' hne => ?_⟩
  apply Lists.filter_erase_of_not
  simpa [hkey] using Ne.symm hne

/-- The first loop takes the newest tasks of its futex and leaves those of the
others. -/
theorem start_spec (futex count : Nat) (list : List FutexWait) :
    (start futex count list).2
        = ((list.filter fun w => w.key = futex).map FutexWait.task).take count ∧
      ((start futex count list).1.filter fun w => w.key = futex)
        = (list.filter fun w => w.key = futex).drop count ∧
      ∀ futex', futex' ≠ futex →
        ((start futex count list).1.filter fun w => w.key = futex')
          = list.filter fun w => w.key = futex' := by
  induction count generalizing list with
  | zero => exact ⟨by simp [start], by simp [start], fun _ _ => rfl⟩
  | succ count ih =>
    cases hfind : list.find? (fun w => w.key = futex) with
    | none =>
      have hnil : list.filter (fun w => w.key = futex) = [] :=
        filter_eq_nil_iff.mpr (find?_eq_none.mp hfind)
      simp [start, hfind, hnil]
    | some waiter =>
      obtain ⟨⟨rest, hlist, herase⟩, hother⟩ := find_spec hfind
      obtain ⟨h1, h2, h3⟩ := ih (list.erase waiter)
      rw [herase] at h1 h2
      refine ⟨?_, ?_, fun futex' hne => ?_⟩
      · simp [start, hfind, hlist, h1]
      · simp [start, hfind, hlist, h2]
      · simpa [start, hfind, h3 futex' hne] using hother futex' hne

/-- The second loop moves the newest tasks of the first futex to the second and
leaves those of the others. -/
theorem move_spec {futex1 futex2 : Nat} (hne : futex2 ≠ futex1) (count : Nat)
    (list : List FutexWait) :
    ((move futex1 futex2 count list).filter fun w => w.key = futex1)
        = (list.filter fun w => w.key = futex1).drop count ∧
      (((move futex1 futex2 count list).filter fun w => w.key = futex2).map FutexWait.task)
        = (((list.filter fun w => w.key = futex1).map FutexWait.task).take count).reverse
          ++ (list.filter fun w => w.key = futex2).map FutexWait.task ∧
      ∀ futex', futex' ≠ futex1 → futex' ≠ futex2 →
        ((move futex1 futex2 count list).filter fun w => w.key = futex')
          = list.filter fun w => w.key = futex' := by
  induction count generalizing list with
  | zero => exact ⟨by simp [move], by simp [move], fun _ _ _ => rfl⟩
  | succ count ih =>
    cases hfind : list.find? (fun w => w.key = futex1) with
    | none =>
      have hnil : list.filter (fun w => w.key = futex1) = [] :=
        filter_eq_nil_iff.mpr (find?_eq_none.mp hfind)
      simp [move, hfind, hnil]
    | some waiter =>
      obtain ⟨⟨rest, hlist, herase⟩, hother⟩ := find_spec hfind
      obtain ⟨h1, h2, h3⟩ := ih ({ waiter with key := futex2 } :: list.erase waiter)
      rw [filter_cons_of_neg (by simpa using hne), herase] at h1 h2
      rw [filter_cons_of_pos (by simp), hother futex2 hne] at h2
      refine ⟨?_, ?_, fun futex' hne1 hne2 => ?_⟩
      · simp [move, hfind, hlist, h1]
      · simp [move, hfind, hlist, h2]
      · have h := h3 futex' hne1 hne2
        rw [filter_cons_of_neg (by simpa using Ne.symm hne2), hother futex' hne1] at h
        simpa [move, hfind] using h

/-! ## What the operations do to the waiting tasks of a futex -/

@[simp] theorem waiters_waitInsert (fm : FutexManager) (task futex : Nat) :
    (fm.waitInsert task futex).waiters futex = task :: fm.waiters futex := by
  simp [waiters, waitInsert]

theorem waiters_waitInsert_of_ne (fm : FutexManager) (task : Nat) {key : Nat} (hne : key ≠ futex) :
    (fm.waitInsert task key).waiters futex = fm.waiters futex := by
  simp [waiters, waitInsert, hne]

theorem waitCompare_cases {task addr val : Nat} {sleep : Bool}
    (h : fm.waitCompare task addr val = some (fm', sleep)) :
    fm.ivLock = none ∧ ((addr ≠ val ∧ fm' = fm ∧ sleep = false) ∨
      (addr = val ∧ fm' = { fm with ivLock := some task } ∧ sleep = true)) := by
  unfold waitCompare at h
  split_ifs at h with hlock hval
  · refine ⟨by simpa using hlock, Or.inl ⟨hval, ?_⟩⟩
    simp only [Option.some.injEq, Prod.mk.injEq] at h
    exact ⟨h.1.symm, h.2.symm⟩
  · refine ⟨by simpa using hlock, Or.inr ⟨not_not.mp hval, ?_⟩⟩
    simp only [Option.some.injEq, Prod.mk.injEq] at h
    exact ⟨h.1.symm, h.2.symm⟩

theorem wake_spec {count : Nat} (h : fm.wake futex count none 0 = some (fm', tasks)) :
    fm.ivLock = none ∧ fm'.ivLock = none ∧ tasks = (fm.waiters futex).take count ∧
      fm'.waiters futex = (fm.waiters futex).drop count ∧
      ∀ futex', futex' ≠ futex → fm'.waiters futex' = fm.waiters futex' := by
  unfold wake at h
  split_ifs at h with hlock
  have hfree : fm.ivLock = none := by simpa using hlock
  obtain ⟨hstart, hsame, hother⟩ := start_spec futex count fm.ivList
  simp only [Option.some.injEq, Prod.mk.injEq] at h
  obtain ⟨rfl, rfl⟩ := h
  refine ⟨hfree, hfree, hstart, ?_, fun futex' hne => ?_⟩
  · simp only [waiters]
    rw [hsame, map_drop]
  · simp only [waiters]
    rw [hother futex' hne]

/-- Waking one task takes the newest waiting task of the futex, if there is
one. -/
theorem wake_one_cases (h : fm.wake futex 1 none 0 = some (fm', tasks)) :
    fm.ivLock = none ∧ fm'.ivLock = none ∧
      ((fm.waiters futex = [] ∧ fm'.waiters futex = [] ∧ tasks = []) ∨
        ∃ t, tasks = [t] ∧ fm.waiters futex = t :: fm'.waiters futex) := by
  obtain ⟨hfree, hfree', htasks, hrest, -⟩ := wake_spec h
  refine ⟨hfree, hfree', ?_⟩
  cases hlist : fm.waiters futex with
  | nil =>
    rw [hlist] at htasks hrest
    exact Or.inl ⟨rfl, hrest, htasks⟩
  | cons t rest =>
    rw [hlist] at htasks hrest
    refine Or.inr ⟨t, htasks, ?_⟩
    rw [hrest]
    rfl

/-- A wake of one task with a second futex: the newest task is started, and the
others are moved if the second count is large enough. -/
theorem requeue_cases {futex1 futex2 count : Nat} (hne : futex2 ≠ futex1)
    (hcount : (fm.waiters futex1).length ≤ count + 1)
    (h : fm.wake futex1 1 (some futex2) count = some (fm', tasks)) :
    fm.ivLock = none ∧ fm'.ivLock = none ∧ fm'.waiters futex1 = [] ∧
      ((fm.waiters futex1 = [] ∧ tasks = [] ∧ fm'.waiters futex2 = fm.waiters futex2) ∨
        ∃ t rest, fm.waiters futex1 = t :: rest ∧ tasks = [t] ∧
          fm'.waiters futex2 = rest.reverse ++ fm.waiters futex2) := by
  unfold wake at h
  split_ifs at h with hlock
  have hfree : fm.ivLock = none := by simpa using hlock
  obtain ⟨hstart, hsame, hother⟩ := start_spec futex1 1 fm.ivList
  obtain ⟨hmove1, hmove2, -⟩ := move_spec hne count (start futex1 1 fm.ivList).1
  simp only [Option.some.injEq, Prod.mk.injEq] at h
  obtain ⟨rfl, rfl⟩ := h
  rw [hsame] at hmove1 hmove2
  rw [hother futex2 hne] at hmove2
  refine ⟨hfree, hfree, ?_, ?_⟩
  · have hlength : (fm.ivList.filter fun w => w.key = futex1).length ≤ count + 1 := by
      simpa [waiters] using hcount
    simp only [waiters]
    rw [hmove1, drop_drop, drop_eq_nil_of_le (by omega), map_nil]
  · simp only [waiters] at hcount ⊢
    cases hlist : fm.ivList.filter fun w => w.key = futex1 with
    | nil =>
      rw [hlist] at hmove2 hstart
      exact Or.inl ⟨rfl, hstart, by simpa using hmove2⟩
    | cons w rest =>
      rw [hlist] at hmove2 hstart hcount
      refine Or.inr ⟨w.task, rest.map FutexWait.task, rfl, hstart, ?_⟩
      rw [hmove2, drop_one, tail_cons, take_of_length_le]
      simpa using hcount

end FutexManager

end Hostboot.Sync
