import Mathlib
import Hostboot.Lib.Run
import Hostboot.Sync.LockWord

/-!
# The mutex

`mutex_lock` and `mutex_unlock` of `src/lib/sync.C`, one atomic access to the word or
one operation of the futex manager a step, for any number of tasks.  A task
unlocks only a mutex it holds.  The futex manager serves other futexes at the same
time.

Two results hold in every state of every run.  At most one task holds the mutex.
While a task sleeps on the futex of the mutex, a task holds the mutex with the word
at 2, or a wake is due.  After a wake has started one task of several, no task
may be in `mutex_unlock`: the started task is before its exchange, and it will mark
the word as contended for itself or for a task that was faster.  So `WakeDue` says
what counts: a running task is on its way, and in no continuation can all tasks
be done or asleep unless somebody has performed a wake.
-/

namespace Hostboot.Sync

open Hostboot.Lib
open Function (update update_of_ne update_self)

/-- `mutex_t`. -/
structure MutexT where
  ivVal : Nat
  ivOwnerLockCount : Nat
  ivOwner : Nat
  ivRecursive : Bool
  deriving DecidableEq, Repr

/-- `mutex_init`. -/
def mutexInit (recursive : Bool) : MutexT := ⟨0, 0, 0, recursive⟩

namespace Plain

open Phase

/-- The mutex, the futex manager and what the tasks do. -/
structure State where
  mutex : MutexT
  futexes : FutexManager
  tasks : Nat → Phase

namespace State

def setVal (s : State) (val : Nat) : State := { s with mutex := { s.mutex with ivVal := val } }

def setTask (s : State) (t : Nat) (phase : Phase) : State :=
  { s with tasks := update s.tasks t phase }

@[simp] theorem setVal_tasks (s : State) (val : Nat) : (s.setVal val).tasks = s.tasks := rfl

@[simp] theorem setTask_tasks (s : State) (t : Nat) (phase : Phase) :
    (s.setTask t phase).tasks = update s.tasks t phase := rfl

@[simp] theorem setVal_futexes (s : State) (val : Nat) :
    (s.setVal val).futexes = s.futexes := rfl

@[simp] theorem setTask_futexes (s : State) (t : Nat) (phase : Phase) :
    (s.setTask t phase).futexes = s.futexes := rfl

/-- `mutex_lock` up to its compare-and-swap. -/
def mutexLock (s : State) (t : Nat) : Option State :=
  if s.mutex.ivRecursive then none
  else
    let lockStatus := s.mutex.ivVal
    if lockStatus = 0 then some ((s.setVal 1).setTask t .held)
    else if lockStatus ≠ 2 then some (s.setTask t .exchanging)
    else some (s.setTask t .waiting)

/-- `__sync_lock_test_and_set`, before and in the loop of `mutex_lock`. -/
def exchange (s : State) (t : Nat) : State :=
  let lockStatus := s.mutex.ivVal
  (s.setVal 2).setTask t (if lockStatus = 0 then .held else .waiting)

/-- `futex_wait` up to the comparison. -/
def futexWait (s : State) (t : Nat) : Option State :=
  match s.futexes.waitCompare t s.mutex.ivVal 2 with
  | none => none
  | some (futexes, sleep) =>
    some ({ s with futexes := futexes }.setTask t (if sleep then .compared else .exchanging))

/-- The rest of `futex_wait` for a task that sleeps. -/
def sleep (addr : Nat) (s : State) (t : Nat) : State :=
  { s with futexes := s.futexes.waitInsert t addr }.setTask t .asleep

/-- `mutex_unlock` up to its subtraction. -/
def mutexUnlock (s : State) (t : Nat) : Option State :=
  if s.mutex.ivRecursive then none
  else
    let lockStatus := s.mutex.ivVal
    some ((s.setVal (sub64 lockStatus 1)).setTask t (if lockStatus ≥ 2 then .releasing else .out))

/-- `futex_wake` of one task. -/
def futexWake (addr : Nat) (s : State) (t : Nat) : Option State :=
  match s.futexes.wake addr 1 none 0 with
  | none => none
  | some (futexes, tasks) =>
    some { s with futexes := futexes, tasks := started (update s.tasks t .out) tasks }

/-- A mutex nobody has used. -/
def init (futexes : FutexManager) : State where
  mutex := mutexInit false
  futexes := futexes
  tasks := fun _ => .out

/-- The lock word of the state. -/
def word (s : State) : LockWord := ⟨s.mutex.ivVal, s.futexes, s.tasks⟩

theorem word_setVal_setTask (s : State) (val t : Nat) (phase : Phase) :
    ((s.setVal val).setTask t phase).word
      = ⟨val, s.futexes, update s.tasks t phase⟩ := rfl

end State

/-- The steps of the tasks. -/
inductive Op where
  | lock (t : Nat)
  | exchange (t : Nat)
  | futexWait (t : Nat)
  | sleep (t : Nat)
  | unlock (t : Nat)
  /-- The store of 0 in `mutex_unlock`. -/
  | store (t : Nat)
  | futexWake (t : Nat)
  /-- The futex manager works for another futex. -/
  | other (futexes : FutexManager)
  deriving DecidableEq, Repr

/-- The task that takes the step. -/
def Op.task : Op → Option Nat
  | .lock t | .exchange t | .futexWait t | .sleep t | .unlock t | .store t | .futexWake t => some t
  | .other _ => none

/-- The task is where it takes the step. -/
def Op.Allowed (addr : Nat) (s : State) : Op → Prop
  | .lock t => s.tasks t = .out
  | .exchange t => s.tasks t = .exchanging
  | .futexWait t => s.tasks t = .waiting
  | .sleep t => s.tasks t = .compared
  | .unlock t => s.tasks t = .held
  | .store t => s.tasks t = .releasing
  | .futexWake t => s.tasks t = .waking
  | .other futexes => futexes.waiters addr = s.futexes.waiters addr ∧
      ∀ t, s.tasks t = .compared → futexes.ivLock = s.futexes.ivLock

/-- One step of the mutex at `addr`. -/
def State.exec (addr : Nat) (s : State) : Op → Option State
  | .lock t => s.mutexLock t
  | .exchange t => some (s.exchange t)
  | .futexWait t => s.futexWait t
  | .sleep t => some (s.sleep addr t)
  | .unlock t => s.mutexUnlock t
  | .store t => some ((s.setVal 0).setTask t .waking)
  | .futexWake t => s.futexWake addr t
  | .other futexes => some { s with futexes := futexes }

/-- An allowed step with a result. -/
def Step (addr : Nat) (s : State) (op : Op) (s' : State) : Prop :=
  op.Allowed addr s ∧ s.exec addr op = some s'

/-! ## The steps are moves of the lock word -/

namespace State

variable {addr : Nat} {s s' : State} {t : Nat}

theorem mutexLock_cases (h : s.mutexLock t = some s') :
    (s.mutex.ivVal = 0 ∧ s' = (s.setVal 1).setTask t .held) ∨
      ∃ p, (p = exchanging ∨ p = waiting) ∧ s' = s.setTask t p := by
  unfold mutexLock at h
  dsimp only at h
  split_ifs at h with hrecursive hzero htwo
  · exact Or.inl ⟨hzero, (Option.some.inj h).symm⟩
  · exact Or.inr ⟨.exchanging, Or.inl rfl, (Option.some.inj h).symm⟩
  · exact Or.inr ⟨.waiting, Or.inr rfl, (Option.some.inj h).symm⟩

theorem futexWait_cases (h : s.futexWait t = some s') :
    ∃ futexes sleep, s.futexes.waitCompare t s.mutex.ivVal 2 = some (futexes, sleep) ∧
      s' = { s with futexes := futexes }.setTask t (if sleep then .compared else .exchanging) := by
  unfold futexWait at h
  cases hfm : s.futexes.waitCompare t s.mutex.ivVal 2 with
  | none =>
    rw [hfm] at h
    exact absurd h (by simp)
  | some pair =>
    rw [hfm] at h
    exact ⟨pair.1, pair.2, rfl, (Option.some.inj h).symm⟩

theorem mutexUnlock_eq (h : s.mutexUnlock t = some s') :
    s' = (s.setVal (sub64 s.mutex.ivVal 1)).setTask t
      (if s.mutex.ivVal ≥ 2 then .releasing else .out) := by
  unfold mutexUnlock at h
  by_cases hrecursive : s.mutex.ivRecursive
  · rw [if_pos hrecursive] at h
    exact absurd h (by simp)
  · rw [if_neg hrecursive] at h
    exact (Option.some.inj h).symm

theorem futexWake_cases (h : s.futexWake addr t = some s') :
    ∃ futexes tasks, s.futexes.wake addr 1 none 0 = some (futexes, tasks) ∧
      s' = { s with
        futexes := futexes
        tasks := started (update s.tasks t .out) tasks } := by
  unfold futexWake at h
  cases hfm : s.futexes.wake addr 1 none 0 with
  | none =>
    rw [hfm] at h
    exact absurd h (by simp)
  | some pair =>
    rw [hfm] at h
    exact ⟨pair.1, pair.2, rfl, (Option.some.inj h).symm⟩

end State

theorem Step.move {addr : Nat} {s s' : State} {op : Op} (h : Step addr s op s') :
    Move addr s.word s'.word := by
  obtain ⟨hallowed, hexec⟩ := h
  cases op with
  | lock t =>
    rcases State.mutexLock_cases hexec with ⟨hzero, rfl⟩ | ⟨p, hp, rfl⟩
    · exact .acquire t hallowed hzero
    · exact .contend t p hallowed hp
  | exchange t =>
    obtain rfl := Option.some.inj hexec
    exact .exchange t hallowed
  | futexWait t =>
    obtain ⟨futexes, sleep, hfm, rfl⟩ := State.futexWait_cases hexec
    exact .compare t futexes sleep hallowed hfm
  | sleep t =>
    obtain rfl := Option.some.inj hexec
    exact .sleep t hallowed
  | unlock t =>
    rw [State.mutexUnlock_eq hexec, State.word_setVal_setTask]
    exact .subtract t hallowed
  | store t =>
    obtain rfl := Option.some.inj hexec
    exact .store t hallowed
  | futexWake t =>
    obtain ⟨futexes, tasks, hfm, rfl⟩ := State.futexWake_cases hexec
    exact .wake t futexes tasks hallowed hfm
  | other futexes =>
    obtain rfl := Option.some.inj hexec
    exact .other futexes hallowed.1 hallowed.2

/-! ## What a step leaves alone

These lemmas are for code that uses the mutex together with other futexes. -/

section Frame

variable {addr : Nat} {s s' : State} {op : Op} {t : Nat}

theorem Step.tasks_of_ne (h : Step addr s op s') (hlock : LockOk addr s.word)
    (ht : op.task ≠ some t) :
    s'.tasks t = s.tasks t ∨ (s.tasks t = .asleep ∧ s'.tasks t = .exchanging) := by
  have hne : ∀ t', op.task = some t' → t ≠ t' := by
    rintro t' heq rfl
    exact ht heq
  obtain ⟨hallowed, hexec⟩ := h
  cases op with
  | lock t' =>
    rcases State.mutexLock_cases hexec with ⟨-, rfl⟩ | ⟨p, -, rfl⟩
    · exact Or.inl (update_of_ne (hne t' rfl) _ _)
    · exact Or.inl (update_of_ne (hne t' rfl) _ _)
  | exchange t' =>
    obtain rfl := Option.some.inj hexec
    exact Or.inl (update_of_ne (hne t' rfl) _ _)
  | futexWait t' =>
    obtain ⟨futexes, sleep, -, rfl⟩ := State.futexWait_cases hexec
    exact Or.inl (update_of_ne (hne t' rfl) _ _)
  | sleep t' =>
    obtain rfl := Option.some.inj hexec
    exact Or.inl (update_of_ne (hne t' rfl) _ _)
  | unlock t' =>
    rw [State.mutexUnlock_eq hexec, State.setTask_tasks, State.setVal_tasks]
    exact Or.inl (update_of_ne (hne t' rfl) _ _)
  | store t' =>
    obtain rfl := Option.some.inj hexec
    exact Or.inl (update_of_ne (hne t' rfl) _ _)
  | futexWake t' =>
    obtain ⟨futexes, tasks, hfm, rfl⟩ := State.futexWake_cases hexec
    by_cases hmem : t ∈ tasks
    · refine Or.inr ⟨?_, if_pos hmem⟩
      apply (hlock.listed.mem t).mp
      rw [(FutexManager.wake_spec hfm).2.2.1] at hmem
      exact List.mem_of_mem_take hmem
    · exact Or.inl ((if_neg hmem).trans (update_of_ne (hne t' rfl) _ _))
  | other futexes =>
    obtain rfl := Option.some.inj hexec
    exact Or.inl rfl

theorem Step.tasks_of_task (h : Step addr s op s') (hlock : LockOk addr s.word)
    (ht : op.task = some t) :
    (s.tasks t = .out → op = .lock t) ∧
    (s.tasks t = .held → op = .unlock t ∧ (s'.tasks t = .releasing ∨ s'.tasks t = .out)) ∧
    (s.tasks t = .releasing → s'.tasks t = .waking) ∧
    (s.tasks t = .waking → s'.tasks t = .out) := by
  obtain ⟨hallowed, hexec⟩ := h
  cases op with
  | lock t' =>
    obtain rfl : t' = t := Option.some.inj ht
    replace hallowed : s.tasks t' = .out := hallowed
    simp [hallowed]
  | exchange t' =>
    obtain rfl : t' = t := Option.some.inj ht
    replace hallowed : s.tasks t' = .exchanging := hallowed
    simp [hallowed]
  | futexWait t' =>
    obtain rfl : t' = t := Option.some.inj ht
    replace hallowed : s.tasks t' = .waiting := hallowed
    simp [hallowed]
  | sleep t' =>
    obtain rfl : t' = t := Option.some.inj ht
    replace hallowed : s.tasks t' = .compared := hallowed
    simp [hallowed]
  | unlock t' =>
    obtain rfl : t' = t := Option.some.inj ht
    replace hallowed : s.tasks t' = .held := hallowed
    rw [State.mutexUnlock_eq hexec, State.setTask_tasks, State.setVal_tasks, update_self]
    refine ⟨by simp [hallowed], fun _ => ⟨rfl, ?_⟩, by simp [hallowed], by simp [hallowed]⟩
    split_ifs
    · exact Or.inl rfl
    · exact Or.inr rfl
  | store t' =>
    obtain rfl : t' = t := Option.some.inj ht
    replace hallowed : s.tasks t' = .releasing := hallowed
    obtain rfl := Option.some.inj hexec
    simp [hallowed]
  | futexWake t' =>
    obtain rfl : t' = t := Option.some.inj ht
    replace hallowed : s.tasks t' = .waking := hallowed
    obtain ⟨futexes, tasks, hfm, rfl⟩ := State.futexWake_cases hexec
    have hnot : t' ∉ tasks := by
      intro hmem
      rw [(FutexManager.wake_spec hfm).2.2.1] at hmem
      have hasleep : s.tasks t' = .asleep :=
        (hlock.listed.mem t').mp (List.mem_of_mem_take hmem)
      exact absurd (hasleep.symm.trans hallowed) (by simp)
    simp [hallowed, started, hnot]
  | other futexes => exact absurd ht (by simp [Op.task])

theorem Step.held_of_ne (h : Step addr s op s') (hlock : LockOk addr s.word)
    (ht : s.tasks t = .held) (hop : op ≠ .unlock t) : s'.tasks t = .held := by
  by_cases htask : op.task = some t
  · exact absurd ((h.tasks_of_task hlock htask).2.1 ht).1 hop
  · rcases h.tasks_of_ne hlock htask with hsame | ⟨hasleep, -⟩
    · exact hsame.trans ht
    · exact absurd (ht.symm.trans hasleep) (by simp)

theorem Step.out_of_ne (h : Step addr s op s') (hlock : LockOk addr s.word)
    (ht : s.tasks t = .out) (hop : op ≠ .lock t) : s'.tasks t = .out := by
  by_cases htask : op.task = some t
  · exact absurd ((h.tasks_of_task hlock htask).1 ht) hop
  · rcases h.tasks_of_ne hlock htask with hsame | ⟨hasleep, -⟩
    · exact hsame.trans ht
    · exact absurd (ht.symm.trans hasleep) (by simp)

/-- A task on its way through the unlock stays there until it locks the mutex. -/
theorem Step.leaving_of_ne (h : Step addr s op s') (hlock : LockOk addr s.word)
    (ht : s.tasks t = .held ∨ s.tasks t = .releasing ∨ s.tasks t = .waking ∨ s.tasks t = .out)
    (hop : op ≠ .lock t) :
    s'.tasks t = .held ∨ s'.tasks t = .releasing ∨ s'.tasks t = .waking ∨ s'.tasks t = .out := by
  by_cases htask : op.task = some t
  · obtain ⟨hout, hheld, hreleasing, hwaking⟩ := h.tasks_of_task hlock htask
    rcases ht with ht | ht | ht | ht
    · rcases (hheld ht).2 with hb | hb
      · exact Or.inr (Or.inl hb)
      · exact Or.inr (Or.inr (Or.inr hb))
    · exact Or.inr (Or.inr (Or.inl (hreleasing ht)))
    · exact Or.inr (Or.inr (Or.inr (hwaking ht)))
    · exact absurd (hout ht) hop
  · rcases h.tasks_of_ne hlock htask with hsame | ⟨hasleep, -⟩
    · rw [hsame]
      exact ht
    · rw [hasleep] at ht
      exact absurd ht (by simp)

theorem Step.waiters_of_ne {key : Nat} (h : Step addr s op s') (hne : key ≠ addr)
    (hop : ∀ futexes, op ≠ .other futexes) :
    s'.futexes.waiters key = s.futexes.waiters key := by
  obtain ⟨-, hexec⟩ := h
  cases op with
  | lock t' =>
    rcases State.mutexLock_cases hexec with ⟨-, rfl⟩ | ⟨p, -, rfl⟩
    · rfl
    · rfl
  | exchange t' =>
    obtain rfl := Option.some.inj hexec
    rfl
  | futexWait t' =>
    obtain ⟨futexes, sleep, hfm, rfl⟩ := State.futexWait_cases hexec
    obtain ⟨-, ⟨-, rfl, -⟩ | ⟨-, rfl, -⟩⟩ := FutexManager.waitCompare_cases hfm
    · rfl
    · rfl
  | sleep t' =>
    obtain rfl := Option.some.inj hexec
    exact FutexManager.waiters_waitInsert_of_ne _ _ (Ne.symm hne)
  | unlock t' => rw [State.mutexUnlock_eq hexec, State.setTask_futexes, State.setVal_futexes]
  | store t' =>
    obtain rfl := Option.some.inj hexec
    rfl
  | futexWake t' =>
    obtain ⟨futexes, tasks, hfm, rfl⟩ := State.futexWake_cases hexec
    exact (FutexManager.wake_spec hfm).2.2.2.2 key hne
  | other futexes => exact absurd rfl (hop futexes)

theorem Step.ivLock_of_some (h : Step addr s op s') (hlock : LockOk addr s.word)
    (hsome : s.futexes.ivLock = some t) (ht : s.tasks t ≠ .compared)
    (hop : ∀ futexes, op ≠ .other futexes) : s'.futexes.ivLock = some t := by
  obtain ⟨hallowed, hexec⟩ := h
  cases op with
  | lock t' =>
    rcases State.mutexLock_cases hexec with ⟨-, rfl⟩ | ⟨p, -, rfl⟩
    · exact hsome
    · exact hsome
  | exchange t' =>
    obtain rfl := Option.some.inj hexec
    exact hsome
  | futexWait t' =>
    obtain ⟨futexes, sleep, hfm, rfl⟩ := State.futexWait_cases hexec
    have hfree := (FutexManager.waitCompare_cases hfm).1
    exact absurd (hsome.symm.trans hfree) (by simp)
  | sleep t' =>
    have hown : s.futexes.ivLock = some t' := hlock.listed.locked t' hallowed
    obtain rfl : t' = t := Option.some.inj (hown.symm.trans hsome)
    exact absurd hallowed ht
  | unlock t' =>
    rw [State.mutexUnlock_eq hexec, State.setTask_futexes, State.setVal_futexes]
    exact hsome
  | store t' =>
    obtain rfl := Option.some.inj hexec
    exact hsome
  | futexWake t' =>
    obtain ⟨futexes, tasks, hfm, rfl⟩ := State.futexWake_cases hexec
    exact absurd (hsome.symm.trans (FutexManager.wake_spec hfm).1) (by simp)
  | other futexes => exact absurd rfl (hop futexes)

end Frame

/-- The invariant of the mutex: that of its lock word. -/
def MutexOk (addr : Nat) (s : State) : Prop := LockOk addr s.word

theorem MutexOk.init {addr : Nat} {futexes : FutexManager} (h : futexes.waiters addr = []) :
    MutexOk addr (State.init futexes) :=
  LockOk.free rfl h fun _ => rfl

theorem MutexOk.run {addr : Nat} {s s' : State} {ops : List Op} (h : MutexOk addr s)
    (hrun : Run (Step addr) s ops s') : MutexOk addr s' :=
  hrun.invariant h fun _ _ _ hok hstep => LockOk.move hok hstep.move

/-! ## Wakes -/

theorem Step.asleep {addr : Nat} {s s' : State} {op : Op} {t : Nat} (h : Step addr s op s')
    (hop : ∀ t', op ≠ .futexWake t') (ht : s.tasks t = .asleep) : s'.tasks t = .asleep := by
  have hupdate : ∀ t' p q, s.tasks t' = q → q ≠ .asleep →
      update s.tasks t' p t = .asleep := by
    intro t' p q hq hno
    rw [update_of_ne, ht]
    rintro rfl
    exact hno (hq.symm.trans ht)
  obtain ⟨hallowed, hexec⟩ := h
  cases op with
  | lock t' =>
    rcases State.mutexLock_cases hexec with ⟨-, rfl⟩ | ⟨p, -, rfl⟩
    · exact hupdate t' _ _ hallowed (by simp)
    · exact hupdate t' _ _ hallowed (by simp)
  | exchange t' =>
    obtain rfl := Option.some.inj hexec
    exact hupdate t' _ _ hallowed (by simp)
  | futexWait t' =>
    obtain ⟨futexes, sleep, -, rfl⟩ := State.futexWait_cases hexec
    exact hupdate t' _ _ hallowed (by simp)
  | sleep t' =>
    obtain rfl := Option.some.inj hexec
    exact hupdate t' _ _ hallowed (by simp)
  | unlock t' =>
    rw [State.mutexUnlock_eq hexec, State.setTask_tasks, State.setVal_tasks]
    exact hupdate t' _ _ hallowed (by simp)
  | store t' =>
    obtain rfl := Option.some.inj hexec
    exact hupdate t' _ _ hallowed (by simp)
  | futexWake t' => exact absurd rfl (hop t')
  | other futexes =>
    obtain rfl := Option.some.inj hexec
    exact ht

theorem asleep_of_run {addr : Nat} {s s' : State} {ops : List Op} {t : Nat}
    (hrun : Run (Step addr) s ops s') (ht : s.tasks t = .asleep)
    (hops : ∀ t', Op.futexWake t' ∉ ops) : s'.tasks t = .asleep := by
  induction hrun with
  | nil => exact ht
  | snoc hrun hstep ih =>
    refine hstep.asleep (fun t' heq => ?_) (ih fun t' hmem => ?_)
    · exact hops t' (by simp [heq])
    · exact hops t' (List.mem_append_left _ hmem)

/-- A wake for the futex is still to be performed.  A running task is on its way to
it, and every run that leaves no task in the code of the mutex or inside has a
wake. -/
structure WakeDue (addr : Nat) (s : State) : Prop where
  onTheWay : ∃ t, (s.tasks t).OnTheWay
  performed : ∀ ops s', Run (Step addr) s ops s' →
    (∀ t, s'.tasks t = .out ∨ s'.tasks t = .asleep) → ∃ t, Op.futexWake t ∈ ops

/-- With a sleeping task, every run that leaves no other task in the code of the
mutex has a wake. -/
theorem MutexOk.wake_of_run {addr : Nat} {s s' : State} {ops : List Op} {t : Nat}
    (h : MutexOk addr s) (ht : s.tasks t = .asleep) (hrun : Run (Step addr) s ops s')
    (hdone : ∀ t, s'.tasks t = .out ∨ s'.tasks t = .asleep) : ∃ t, Op.futexWake t ∈ ops := by
  by_contra hno
  have hasleep := asleep_of_run hrun ht (not_exists.mp hno)
  rcases (h.run hrun).owed t (Or.inl hasleep) with ⟨t', hheld, -⟩ | ⟨t', hway⟩
  · have hheld' : s'.tasks t' = .held := hheld
    rcases hdone t' with hout | hsleeping
    · exact absurd (hheld'.symm.trans hout) (by simp)
    · exact absurd (hheld'.symm.trans hsleeping) (by simp)
  · have hway' : (s'.tasks t').OnTheWay := hway
    rcases hdone t' with hout | hsleeping
    · simp [OnTheWay, hout] at hway'
    · simp [OnTheWay, hsleeping] at hway'

/-- In every state of every run at most one task holds the mutex, and while a task
sleeps on its futex, a task holds the mutex with the word at 2 or a wake is due. -/
theorem mutex_of_run {addr : Nat} {futexes : FutexManager} {ops : List Op} {s : State}
    (hfutexes : futexes.waiters addr = []) (hrun : Run (Step addr) (State.init futexes) ops s) :
    (∀ t t', s.tasks t = .held → s.tasks t' = .held → t = t') ∧
    (∀ t, s.tasks t = .asleep →
      (∃ t', s.tasks t' = .held ∧ s.mutex.ivVal = 2) ∨ WakeDue addr s) := by
  have hok : MutexOk addr s := (MutexOk.init hfutexes).run hrun
  refine ⟨fun t t' ht ht' => ?_, fun t ht => ?_⟩
  · exact hok.exclusive.unique (Or.inl ht) (Or.inl ht')
  · rcases hok.owed t (Or.inl ht) with hheld | hway
    · exact Or.inl hheld
    · exact Or.inr ⟨hway, fun ops' s' hrun' hdone => hok.wake_of_run ht hrun' hdone⟩

/-- Task 1 sleeps, task 0 has released the mutex and has not woken it yet. -/
theorem mutex_of_run_releasing :
    ∃ s, Run (Step 8) (State.init ⟨none, []⟩)
        [.lock 0, .lock 1, .exchange 1, .futexWait 1, .sleep 1, .unlock 0, .store 0] s ∧
      s.tasks 1 = .asleep ∧ s.mutex.ivVal = 0 ∧ WakeDue 8 s := by
  have hrun : ∃ s, Run (Step 8) (State.init ⟨none, []⟩)
      [.lock 0, .lock 1, .exchange 1, .futexWait 1, .sleep 1, .unlock 0, .store 0] s ∧
      s.tasks 1 = .asleep ∧ s.mutex.ivVal = 0 := by
    refine ⟨_, .cons ⟨rfl, rfl⟩ (.cons ⟨rfl, rfl⟩ (.cons ⟨rfl, rfl⟩ (.cons ⟨rfl, rfl⟩
      (.cons ⟨rfl, rfl⟩ (.cons ⟨rfl, rfl⟩ (.cons ⟨rfl, rfl⟩ .nil)))))), rfl, rfl⟩
  obtain ⟨s, hrun, hasleep, hval⟩ := hrun
  refine ⟨s, hrun, hasleep, hval, ?_⟩
  rcases (mutex_of_run rfl hrun).2 1 hasleep with ⟨_, -, htwo⟩ | hdue
  · omega
  · exact hdue

end Plain

end Hostboot.Sync
