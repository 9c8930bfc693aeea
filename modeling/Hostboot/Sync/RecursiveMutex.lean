import Mathlib
import Hostboot.Sync.Mutex

/-!
# The recursive mutex

`recursive_mutex_lock` and `recursive_mutex_unlock` of `src/lib/sync.C`.  The word
follows the protocol of `LockWord`.  The owner and the lock count are plain fields:
a load or a store of one of them is a step of its own, and other tasks can run
between any two of them.

A task is known by the number of its creation, and `task_gettid` is what the 16-bit
counter of the task manager gave to it.  `depth` is not in the source: the number
of `recursive_mutex_lock` calls a task has returned from, less its
`recursive_mutex_unlock` calls.

The counter of the task manager wraps after 65536 tasks.  Two live tasks with
stacks have different ids all the same, since `createStack` asserts that it finds no
stack for a new id.  But the id 0, which the mutex has for no owner, comes back:
the first task with it has no stack.  A task with the id 0 that finds the word taken
and the owner not yet written takes itself for the owner (`two_owners`).  The result
is about the runs in which no such task locks the mutex, the tasks that use it at
one time have different ids, and no task nests its locks until the count wraps.
-/

namespace Hostboot.Sync.Recursive

open Hostboot.Lib Phase
open Function (update update_eq_self update_of_ne update_self)

/-- `task_gettid` of the task created as number `t`: `Counter<tid_t>::next`. -/
def taskGettid (t : Nat) : Nat := t % 2 ^ 16

/-- Where a task is in the code of the recursive mutex. -/
inductive Pc where
  | idle
  /-- The compare-and-swap has failed with this value, before the test of the owner. -/
  | comparing (lockStatus : Nat)
  | exchanging
  | waiting
  | compared
  | asleep
  /-- Before the owner is written. -/
  | owning
  /-- Before the count is loaded to be incremented. -/
  | loading
  | storing (count : Nat)
  /-- Before the count is set to 0. -/
  | clearing
  /-- Before the owner is set to 0. -/
  | disowning
  | subtracting
  | releasing
  | waking
  /-- Before the count is loaded to be decremented. -/
  | reloading
  | restoring (count : Nat)
  deriving DecidableEq, Repr

/-- The phase of the lock word for a task with this nesting. -/
def Pc.phase (pc : Pc) (depth : Nat) : Phase :=
  match pc with
  | .idle | .comparing _ => if depth = 0 then .out else .held
  | .exchanging => .exchanging
  | .waiting => .waiting
  | .compared => .compared
  | .asleep => .asleep
  | .releasing => .releasing
  | .waking => .waking
  | _ => .held

theorem Pc.eq_of_phase {pc : Pc} {depth : Nat} :
    (pc.phase depth = .asleep → pc = .asleep) ∧ (pc.phase depth = .compared → pc = .compared) := by
  cases pc with
  | idle =>
    unfold Pc.phase
    split_ifs <;> simp
  | comparing lockStatus =>
    unfold Pc.phase
    split_ifs <;> simp
  | _ => simp [Pc.phase]

/-- The mutex, the futex manager, what the tasks do and how deep they nest. -/
structure State where
  mutex : MutexT
  futexes : FutexManager
  tasks : Nat → Pc
  depth : Nat → Nat

namespace State

/-- A task goes on, with a new value of the mutex. -/
def go (s : State) (t : Nat) (mutex : MutexT) (pc : Pc) : State :=
  { s with mutex := mutex, tasks := update s.tasks t pc }

def setDepth (s : State) (t depth : Nat) : State :=
  { s with depth := update s.depth t depth }

/-- `recursive_mutex_lock` up to its compare-and-swap. -/
def recursiveMutexLock (s : State) (t : Nat) : Option State :=
  if !s.mutex.ivRecursive then none
  else if s.mutex.ivVal = 0 then some (s.go t { s.mutex with ivVal := 1 } .owning)
  else some (s.go t s.mutex (.comparing s.mutex.ivVal))

/-- `recursive_mutex_unlock` up to the test of the count. -/
def recursiveMutexUnlock (s : State) (t : Nat) : Option State :=
  if !s.mutex.ivRecursive then none
  else
    some ((s.go t s.mutex (if s.mutex.ivOwnerLockCount ≤ 1 then .clearing else .reloading)).setDepth
      t (s.depth t - 1))

/-- `futex_wait` up to the comparison. -/
def futexWait (s : State) (t : Nat) : Option State :=
  match s.futexes.waitCompare t s.mutex.ivVal 2 with
  | none => none
  | some (futexes, sleep) =>
    some ({ s with futexes := futexes }.go t s.mutex (if sleep then .compared else .exchanging))

/-- `futex_wake` of one task. -/
def futexWake (addr : Nat) (s : State) (t : Nat) : Option State :=
  match s.futexes.wake addr 1 none 0 with
  | none => none
  | some (futexes, tasks) =>
    some { s with
      futexes := futexes
      tasks := fun t' =>
        if t' ∈ tasks then .exchanging else update s.tasks t .idle t' }

/-- The next step of a task in the code of the mutex. -/
def next (addr : Nat) (s : State) (t : Nat) : Option State :=
  match s.tasks t with
  | .idle => none
  | .comparing lockStatus =>
    some (s.go t s.mutex
      (if taskGettid t = s.mutex.ivOwner then .loading
       else if lockStatus ≠ 2 then .exchanging
       else .waiting))
  | .exchanging =>
    some (s.go t { s.mutex with ivVal := 2 } (if s.mutex.ivVal = 0 then .owning else .waiting))
  | .waiting => s.futexWait t
  | .compared =>
    some ({ s with futexes := s.futexes.waitInsert t addr }.go t s.mutex .asleep)
  | .asleep => none
  | .owning => some (s.go t { s.mutex with ivOwner := taskGettid t } .loading)
  | .loading => some (s.go t s.mutex (.storing s.mutex.ivOwnerLockCount))
  | .storing count =>
    some ((s.go t { s.mutex with ivOwnerLockCount := add64 count 1 } .idle).setDepth t
      (s.depth t + 1))
  | .clearing => some (s.go t { s.mutex with ivOwnerLockCount := 0 } .disowning)
  | .disowning => some (s.go t { s.mutex with ivOwner := 0 } .subtracting)
  | .subtracting =>
    some (s.go t { s.mutex with ivVal := sub64 s.mutex.ivVal 1 }
      (if s.mutex.ivVal ≥ 2 then .releasing else .idle))
  | .releasing => some (s.go t { s.mutex with ivVal := 0 } .waking)
  | .waking => s.futexWake addr t
  | .reloading => some (s.go t s.mutex (.restoring s.mutex.ivOwnerLockCount))
  | .restoring count =>
    some (s.go t { s.mutex with ivOwnerLockCount := sub64 count 1 } .idle)

/-- A mutex nobody has used. -/
def init (futexes : FutexManager) : State where
  mutex := mutexInit true
  futexes := futexes
  tasks := fun _ => .idle
  depth := fun _ => 0

/-- Where a task is in the protocol of the lock word. -/
def phase (s : State) (t : Nat) : Phase := (s.tasks t).phase (s.depth t)

/-- The lock word of the state. -/
def word (s : State) : LockWord := ⟨s.mutex.ivVal, s.futexes, s.phase⟩

end State

/-- The steps of the tasks. -/
inductive Op where
  | lock (t : Nat)
  | unlock (t : Nat)
  | next (t : Nat)
  /-- The futex manager works for another futex. -/
  | other (futexes : FutexManager)
  deriving DecidableEq, Repr

/-- The task that takes the step. -/
def Op.task : Op → Option Nat
  | .lock t | .unlock t | .next t => some t
  | .other _ => none

/-- A task calls while it is outside, and unlocks only what it has locked. -/
def Op.Allowed (addr : Nat) (s : State) : Op → Prop
  | .lock t => s.tasks t = .idle
  | .unlock t => s.tasks t = .idle ∧ 0 < s.depth t
  | .next _ => True
  | .other futexes => futexes.waiters addr = s.futexes.waiters addr ∧
      ∀ t, s.tasks t = .compared → futexes.ivLock = s.futexes.ivLock

/-- One step of the mutex at `addr`. -/
def State.exec (addr : Nat) (s : State) : Op → Option State
  | .lock t => s.recursiveMutexLock t
  | .unlock t => s.recursiveMutexUnlock t
  | .next t => s.next addr t
  | .other futexes => some { s with futexes := futexes }

/-- An allowed step with a result. -/
def Step (addr : Nat) (s : State) (op : Op) (s' : State) : Prop :=
  op.Allowed addr s ∧ s.exec addr op = some s'

/-- A task is in the code of the mutex, or has it locked. -/
def State.Active (s : State) (t : Nat) : Prop := s.tasks t ≠ .idle ∨ 0 < s.depth t

/-- A task has an id that is not 0, and that no other task has that uses the mutex. -/
def State.Distinct (s : State) (t : Nat) : Prop :=
  taskGettid t ≠ 0 ∧ ∀ t', t' ≠ t → s.Active t' → taskGettid t' ≠ taskGettid t

/-- A task that locks has an id of its own, and its count does not wrap. -/
def Op.Fine (s : State) : Op → Prop
  | .lock t => s.Distinct t ∧ s.depth t + 1 < 2 ^ 64
  | _ => True

/-- A fine step. -/
def FineStep (addr : Nat) (s : State) (op : Op) (s' : State) : Prop :=
  Step addr s op s' ∧ op.Fine s

/-! ## The invariant -/

/-- What the owner and the count are while a task is at a place of the code. -/
def TaskOk (mutex : MutexT) (t : Nat) (pc : Pc) (depth : Nat) : Prop :=
  match pc with
  | .idle | .comparing _ =>
    0 < depth → mutex.ivOwner = taskGettid t ∧ mutex.ivOwnerLockCount = depth
  | .exchanging | .waiting | .compared | .asleep | .waking => depth = 0
  | .owning | .subtracting | .releasing =>
    depth = 0 ∧ mutex.ivOwner = 0 ∧ mutex.ivOwnerLockCount = 0
  | .loading => mutex.ivOwner = taskGettid t ∧ mutex.ivOwnerLockCount = depth
  | .storing count =>
    mutex.ivOwner = taskGettid t ∧ mutex.ivOwnerLockCount = depth ∧ count = depth
  | .clearing => depth = 0 ∧ mutex.ivOwner = taskGettid t
  | .disowning => depth = 0 ∧ mutex.ivOwner = taskGettid t ∧ mutex.ivOwnerLockCount = 0
  | .reloading =>
    0 < depth ∧ mutex.ivOwner = taskGettid t ∧ mutex.ivOwnerLockCount = depth + 1
  | .restoring count =>
    0 < depth ∧ mutex.ivOwner = taskGettid t ∧ mutex.ivOwnerLockCount = depth + 1 ∧
      count = depth + 1

/-- The owner and the count agree with what the tasks do. -/
structure Accounts (s : State) : Prop where
  ids : ∀ t, s.Active t → s.Distinct t
  task : ∀ t, TaskOk s.mutex t (s.tasks t) (s.depth t)
  free : (∀ t, ¬ (s.phase t).Inside) →
    s.mutex.ivOwner = 0 ∧ s.mutex.ivOwnerLockCount = 0
  bound : ∀ t, s.depth t < 2 ^ 64 ∧ (s.tasks t ≠ .idle → s.depth t + 1 < 2 ^ 64)

/-- The invariant of the recursive mutex. -/
structure RecursiveOk (addr : Nat) (s : State) : Prop where
  lock : LockOk addr s.word
  accounts : Accounts s

theorem TaskOk.frame {mutex mutex' : MutexT} {t depth : Nat} {pc : Pc}
    (h : TaskOk mutex t pc depth) (hout : ¬ (pc.phase depth).Inside) :
    TaskOk mutex' t pc depth := by
  cases pc with
  | idle =>
    intro hpos
    exact absurd (Or.inl (if_neg (by omega))) hout
  | comparing lockStatus =>
    intro hpos
    exact absurd (Or.inl (if_neg (by omega))) hout
  | exchanging => exact h
  | waiting => exact h
  | compared => exact h
  | asleep => exact h
  | waking => exact h
  | _ => exact absurd (by simp [Pc.phase, Inside]) hout

theorem TaskOk.congr {mutex mutex' : MutexT} {t depth : Nat} {pc : Pc}
    (h : TaskOk mutex t pc depth) (howner : mutex'.ivOwner = mutex.ivOwner)
    (hcount : mutex'.ivOwnerLockCount = mutex.ivOwnerLockCount) : TaskOk mutex' t pc depth := by
  unfold TaskOk at h ⊢
  rw [howner, hcount]
  exact h

theorem Accounts.owner_cases {s : State} (h : Accounts s) :
    s.mutex.ivOwner = 0 ∨ ∃ t, (s.phase t).Inside ∧ s.mutex.ivOwner = taskGettid t := by
  by_cases hin : ∃ t, (s.phase t).Inside
  · obtain ⟨t, ht⟩ := hin
    have hok := h.task t
    rw [State.phase] at ht
    have howner : s.mutex.ivOwner = 0 ∨ s.mutex.ivOwner = taskGettid t := by
      cases hpc : s.tasks t <;> rw [hpc] at ht hok <;> simp [TaskOk, Pc.phase, Inside] at ht hok <;>
        grind
    exact howner.imp_right fun heq => ⟨t, ht, heq⟩
  · exact Or.inl (h.free (not_exists.mp hin)).1

theorem State.active_of_inside {s : State} {t : Nat} (hin : (s.phase t).Inside) : s.Active t := by
  by_contra hno
  rw [Active, not_or, not_not] at hno
  have hdepth : s.depth t = 0 := by omega
  simp [State.phase, hno.1, hdepth, Pc.phase, Inside] at hin

theorem Accounts.owner_ne {s : State} {t : Nat} (h : Accounts s) (ht : s.Distinct t)
    (hout : ¬ (s.phase t).Inside) : taskGettid t ≠ s.mutex.ivOwner := by
  intro heq
  rcases h.owner_cases with hzero | ⟨t', hin, howner⟩
  · exact ht.1 (heq.trans hzero)
  · have hne : t' ≠ t := fun hsame => hout (hsame ▸ hin)
    exact ht.2 t' hne (State.active_of_inside hin) (heq.trans howner).symm

namespace State

/-- A task goes on, with its new nesting. -/
def put (s : State) (t : Nat) (mutex : MutexT) (pc : Pc) (depth : Nat) : State :=
  (s.go t mutex pc).setDepth t depth

theorem go_eq_put (s : State) (t : Nat) (mutex : MutexT) (pc : Pc) :
    s.go t mutex pc = s.put t mutex pc (s.depth t) := by
  simp [put, setDepth, go]

theorem put_phase (s : State) (t : Nat) (mutex : MutexT) (pc : Pc) (depth : Nat) :
    (s.put t mutex pc depth).phase = update s.phase t (pc.phase depth) := by
  funext t'
  by_cases heq : t' = t
  · subst heq
    simp [phase, put, setDepth, go]
  · simp [phase, put, setDepth, go, heq]

theorem put_word (s : State) (t : Nat) (mutex : MutexT) (pc : Pc) (depth : Nat) :
    (s.put t mutex pc depth).word
      = ⟨mutex.ivVal, s.futexes, update s.phase t (pc.phase depth)⟩ := by
  rw [word, put_phase]
  rfl

theorem put_word_of_eq (s : State) (t : Nat) {mutex : MutexT} {pc : Pc} {depth : Nat}
    (hval : mutex.ivVal = s.mutex.ivVal) (hphase : pc.phase depth = s.phase t) :
    (s.put t mutex pc depth).word = s.word := by
  rw [put_word, hval, hphase, update_eq_self]
  rfl

end State

/-- A step of a task outside does not write the owner and the count. -/
def State.Framed (s : State) (t : Nat) (mutex : MutexT) : Prop :=
  ¬ (s.phase t).Inside →
    mutex.ivOwner = s.mutex.ivOwner ∧ mutex.ivOwnerLockCount = s.mutex.ivOwnerLockCount

/-- The count of a task does not wrap, nor does it when the call that runs is done. -/
def Pc.Bounded (pc : Pc) (depth : Nat) : Prop :=
  depth < 2 ^ 64 ∧ (pc ≠ .idle → depth + 1 < 2 ^ 64)

/-- A step of one task keeps the accounts, where a task that leaves has set the owner
and the count to 0. -/
theorem Accounts.put {s : State} {t depth : Nat} {mutex : MutexT} {pc : Pc}
    (h : Accounts s) (hexclusive : Exclusive s.word) (ht : s.Distinct t)
    (hframe : s.Framed t mutex)
    (hself : TaskOk mutex t pc depth)
    (hleave : (s.phase t).Inside → ¬ (pc.phase depth).Inside →
      mutex.ivOwner = 0 ∧ mutex.ivOwnerLockCount = 0)
    (hbound : pc.Bounded depth) :
    Accounts (s.put t mutex pc depth) := by
  have htasks : (s.put t mutex pc depth).tasks = update s.tasks t pc := rfl
  have hdepth : (s.put t mutex pc depth).depth = update s.depth t depth := rfl
  have hactive : ∀ t', t' ≠ t → (s.put t mutex pc depth).Active t' → s.Active t' := by
    intro t' heq ht'
    rwa [State.Active, htasks, hdepth, update_of_ne heq, update_of_ne heq] at ht'
  refine ⟨fun t' ht' => ?_, fun t' => ?_, fun hno => ?_, fun t' => ?_⟩
  · by_cases heq : t' = t
    · rw [heq]
      exact ⟨ht.1, fun t'' hne hact => ht.2 t'' hne (hactive t'' hne hact)⟩
    · have hids := h.ids t' (hactive t' heq ht')
      refine ⟨hids.1, fun t'' hne hact => ?_⟩
      by_cases hsame : t'' = t
      · rw [hsame]
        exact (ht.2 t' heq (hactive t' heq ht')).symm
      · exact hids.2 t'' hne (hactive t'' hsame hact)
  · rw [htasks, hdepth]
    by_cases heq : t' = t
    · subst heq
      rw [update_self, update_self]
      exact hself
    · rw [update_of_ne heq, update_of_ne heq]
      by_cases hin : (s.phase t').Inside
      · have hout : ¬ (s.phase t).Inside := fun hin' => heq (hexclusive.unique hin hin')
        obtain ⟨howner, hcount⟩ := hframe hout
        exact (h.task t').congr howner hcount
      · exact (h.task t').frame hin
  · rw [State.put_phase] at hno
    have hself' : ¬ (pc.phase depth).Inside := by simpa using hno t
    by_cases hin : (s.phase t).Inside
    · exact hleave hin hself'
    · obtain ⟨howner, hcount⟩ := hframe hin
      have hfree := h.free fun t' hin' => by
        by_cases heq : t' = t
        · subst heq
          exact hin hin'
        · exact hno t' (by rwa [update_of_ne heq])
      exact ⟨howner.trans hfree.1, hcount.trans hfree.2⟩
  · rw [htasks, hdepth]
    by_cases heq : t' = t
    · subst heq
      rw [update_self, update_self]
      exact hbound
    · rw [update_of_ne heq, update_of_ne heq]
      exact h.bound t'

/-! ## The steps -/

namespace RecursiveOk

variable {addr : Nat} {s s' : State} {t : Nat} {mutex : MutexT} {pc : Pc}

theorem distinct (h : RecursiveOk addr s) (ht : s.tasks t ≠ .idle) : s.Distinct t :=
  h.accounts.ids t (Or.inl ht)

theorem put {depth : Nat} (h : RecursiveOk addr s) (ht : s.Distinct t)
    (hmove : Move addr s.word
      ⟨mutex.ivVal, s.futexes, update s.phase t (pc.phase depth)⟩)
    (hframe : s.Framed t mutex)
    (hself : TaskOk mutex t pc depth)
    (hleave : (s.phase t).Inside → ¬ (pc.phase depth).Inside →
      mutex.ivOwner = 0 ∧ mutex.ivOwnerLockCount = 0)
    (hbound : pc.Bounded depth) :
    RecursiveOk addr (s.put t mutex pc depth) := by
  refine ⟨?_, h.accounts.put h.lock.exclusive ht hframe hself hleave hbound⟩
  rw [State.put_word]
  exact h.lock.move hmove

theorem quiet {depth : Nat} (h : RecursiveOk addr s) (ht : s.Distinct t)
    (hval : mutex.ivVal = s.mutex.ivVal) (hphase : pc.phase depth = s.phase t)
    (hframe : s.Framed t mutex)
    (hself : TaskOk mutex t pc depth)
    (hbound : pc.Bounded depth) :
    RecursiveOk addr (s.put t mutex pc depth) := by
  refine ⟨?_, h.accounts.put h.lock.exclusive ht hframe hself ?_ hbound⟩
  · rw [State.put_word_of_eq s t hval hphase]
    exact h.lock
  · intro hin hout
    rw [hphase] at hout
    exact absurd hin hout

theorem free_of_zero (h : RecursiveOk addr s) (hval : s.mutex.ivVal = 0) :
    s.mutex.ivOwner = 0 ∧ s.mutex.ivOwnerLockCount = 0 := by
  apply h.accounts.free
  intro t hin
  rcases h.lock.exclusive.val_ne_zero (t := t) hin with hone | htwo
  · exact absurd (hval.symm.trans hone) (by simp)
  · exact absurd (hval.symm.trans htwo) (by simp)

theorem bound_of_active (h : RecursiveOk addr s) (ht : s.tasks t ≠ .idle) :
    pc.Bounded (s.depth t) :=
  ⟨(h.accounts.bound t).1, fun _ => (h.accounts.bound t).2 ht⟩

theorem recursiveMutexLock (h : RecursiveOk addr s) (ht : s.tasks t = .idle)
    (hfine : s.Distinct t ∧ s.depth t + 1 < 2 ^ 64) (hexec : s.recursiveMutexLock t = some s') :
    RecursiveOk addr s' := by
  have hok := h.accounts.task t
  rw [ht] at hok
  have hphase : s.phase t = if s.depth t = 0 then .out else .held := by
    rw [State.phase, ht]
    rfl
  unfold State.recursiveMutexLock at hexec
  split_ifs at hexec with hrecursive hval
  · obtain rfl := Option.some.inj hexec
    obtain ⟨howner, hcount⟩ := h.free_of_zero hval
    -- A task that holds the lock cannot find the word at 0.
    have hdepth : s.depth t = 0 := by
      by_contra hno
      rw [if_neg hno] at hphase
      rcases h.lock.exclusive.val_ne_zero (t := t) (Or.inl hphase) with hone | htwo
      · exact absurd (hval.symm.trans hone) (by simp)
      · exact absurd (hval.symm.trans htwo) (by simp)
    rw [if_pos hdepth] at hphase
    rw [State.go_eq_put]
    refine h.put hfine.1 ?_ (fun _ => ⟨rfl, rfl⟩) ⟨hdepth, howner, hcount⟩ ?_ ?_
    · exact .acquire t hphase hval
    · simp [hphase, Inside]
    · exact ⟨by omega, fun _ => hfine.2⟩
  · obtain rfl := Option.some.inj hexec
    rw [State.go_eq_put]
    refine h.quiet hfine.1 rfl ?_ (fun _ => ⟨rfl, rfl⟩) hok ⟨by omega, fun _ => hfine.2⟩
    rw [hphase]
    rfl

theorem recursiveMutexUnlock (h : RecursiveOk addr s) (ht : s.tasks t = .idle)
    (hdepth : 0 < s.depth t) (hexec : s.recursiveMutexUnlock t = some s') :
    RecursiveOk addr s' := by
  have hok := h.accounts.task t
  rw [ht] at hok
  obtain ⟨howner, hcount⟩ := hok hdepth
  have hmem := h.accounts.ids t (Or.inr hdepth)
  have hbound := (h.accounts.bound t).1
  have hphase : s.phase t = .held := by
    rw [State.phase, ht]
    exact if_neg (by omega)
  unfold State.recursiveMutexUnlock at hexec
  split_ifs at hexec with hrecursive hone
  · obtain rfl := Option.some.inj hexec
    refine h.quiet hmem rfl hphase.symm (fun _ => ⟨rfl, rfl⟩) ⟨?_, howner⟩ ?_
    · omega
    · exact ⟨by omega, fun _ => by omega⟩
  · obtain rfl := Option.some.inj hexec
    refine h.quiet hmem rfl hphase.symm (fun _ => ⟨rfl, rfl⟩) ⟨?_, howner, ?_⟩ ?_
    · omega
    · omega
    · exact ⟨by omega, fun _ => by omega⟩

theorem futex {fm : FutexManager} (h : RecursiveOk addr s) (ht : s.Distinct t)
    (hmove : Move addr s.word ⟨s.mutex.ivVal, fm, update s.phase t (pc.phase (s.depth t))⟩)
    (hout : ¬ (s.phase t).Inside) (hself : TaskOk s.mutex t pc (s.depth t))
    (hbound : s.depth t < 2 ^ 64 ∧ (pc ≠ .idle → s.depth t + 1 < 2 ^ 64)) :
    RecursiveOk addr ({ s with futexes := fm }.go t s.mutex pc) := by
  have haccounts : Accounts { s with futexes := fm } :=
    ⟨h.accounts.ids, h.accounts.task, h.accounts.free, h.accounts.bound⟩
  rw [State.go_eq_put]
  refine ⟨?_, haccounts.put h.lock.exclusive ht (fun _ => ⟨rfl, rfl⟩) hself ?_ hbound⟩
  · rw [State.put_word]
    exact h.lock.move hmove
  · exact fun hin => absurd hin hout

theorem futexWait (h : RecursiveOk addr s) (ht : s.tasks t = .waiting)
    (hexec : s.futexWait t = some s') : RecursiveOk addr s' := by
  have hmem := h.distinct (t := t) (by simp [ht])
  have hphase : s.phase t = .waiting := by rw [State.phase, ht]; rfl
  have hok := h.accounts.task t
  rw [ht] at hok
  unfold State.futexWait at hexec
  cases hfm : s.futexes.waitCompare t s.mutex.ivVal 2 with
  | none =>
    rw [hfm] at hexec
    exact absurd hexec (by simp)
  | some pair =>
    rw [hfm] at hexec
    obtain rfl := Option.some.inj hexec
    have hmove : Move addr s.word _ := .compare t pair.1 pair.2 hphase hfm
    cases hsleep : pair.2 with
    | true =>
      rw [hsleep] at hmove
      exact h.futex hmem hmove (by simp [hphase, Inside]) hok (h.bound_of_active (by simp [ht]))
    | false =>
      rw [hsleep] at hmove
      exact h.futex hmem hmove (by simp [hphase, Inside]) hok (h.bound_of_active (by simp [ht]))

theorem of_accounts {s1 : State} (h : Accounts s1) (hmutex : s'.mutex = s1.mutex)
    (htasks : s'.tasks = s1.tasks) (hdepth : s'.depth = s1.depth)
    (hlock : LockOk addr ⟨s1.mutex.ivVal, s'.futexes, s1.phase⟩) : RecursiveOk addr s' := by
  have hphase : s'.phase = s1.phase := by
    funext t
    rw [State.phase, htasks, hdepth]
    rfl
  refine ⟨?_, ⟨?_, ?_, ?_, ?_⟩⟩
  · rw [State.word, hmutex, hphase]
    exact hlock
  · have hactive : s'.Active = s1.Active := by
      funext t
      rw [State.Active, State.Active, htasks, hdepth]
    unfold State.Distinct
    rw [hactive]
    exact h.ids
  · rw [hmutex, htasks, hdepth]
    exact h.task
  · rw [hmutex, hphase]
    exact h.free
  · rw [htasks, hdepth]
    exact h.bound

theorem futexWake (h : RecursiveOk addr s) (ht : s.tasks t = .waking)
    (hexec : s.futexWake addr t = some s') : RecursiveOk addr s' := by
  have hphase : s.phase t = .waking := by rw [State.phase, ht]; rfl
  have hok := h.accounts.task t
  rw [ht] at hok
  have hdepth : s.depth t = 0 := hok
  -- First the task itself is done, then the started task goes on.
  have hdone : Accounts (s.put t s.mutex .idle (s.depth t)) := by
    refine h.accounts.put h.lock.exclusive (h.distinct (by simp [ht])) (fun _ => ⟨rfl, rfl⟩)
      (fun hpos => ?_) ?_ (h.bound_of_active (by simp [ht]))
    · omega
    · simp [hphase, Inside]
  have hphases : (s.put t s.mutex .idle (s.depth t)).phase = update s.phase t .out := by
    rw [State.put_phase]
    exact congrArg _ (if_pos hdepth)
  unfold State.futexWake at hexec
  cases hfm : s.futexes.wake addr 1 none 0 with
  | none =>
    rw [hfm] at hexec
    exact absurd hexec (by simp)
  | some pair =>
    rw [hfm] at hexec
    obtain rfl := Option.some.inj hexec
    have hlock := h.lock.move (Move.wake t pair.1 pair.2 hphase hfm)
    obtain ⟨-, -, ⟨-, -, htasks⟩ | ⟨x, htasks, hlist⟩⟩ := FutexManager.wake_one_cases hfm
    · rw [htasks] at hlock
      refine of_accounts hdone rfl ?_ ?_ ?_
      · simp [htasks, State.put, State.setDepth, State.go]
      · simp [State.put, State.setDepth, State.go]
      · rw [started_nil] at hlock
        rw [hphases]
        exact hlock
    · rw [htasks, started_singleton] at hlock
      have hmem : x ∈ s.futexes.waiters addr := hlist ▸ List.mem_cons_self
      have hasleep : s.phase x = .asleep := (h.lock.listed.mem x).mp hmem
      have hx : s.tasks x = .asleep := Pc.eq_of_phase.1 hasleep
      have hne : x ≠ t := by
        rintro rfl
        exact absurd (hx.symm.trans ht) (by simp)
      have hokx := h.accounts.task x
      rw [hx] at hokx
      have hexclusive : Exclusive (s.put t s.mutex .idle (s.depth t)).word := by
        refine h.lock.exclusive.outside (t := t) (p := .out) ?_ (by simp [Inside]) rfl hphases
        exact (show ¬ (s.phase t).Inside by simp [hphase, Inside])
      have hout : ¬ ((s.put t s.mutex .idle (s.depth t)).phase x).Inside := by
        rw [hphases, update_of_ne hne, hasleep]
        simp [Inside]
      have hactive : (s.put t s.mutex .idle (s.depth t)).Active x := by
        refine Or.inl ?_
        simp [State.put, State.setDepth, State.go, hne, hx]
      have hstarted : Accounts ((s.put t s.mutex .idle (s.depth t)).put x s.mutex .exchanging
          (s.depth x)) :=
        hdone.put hexclusive (hdone.ids x hactive) (fun _ => ⟨rfl, rfl⟩) hokx
          (fun hin => absurd hin hout) (h.bound_of_active (by simp [hx]))
      refine of_accounts hstarted rfl ?_ ?_ ?_
      · funext t'
        by_cases heq : t' = x
        · simp [htasks, State.put, State.setDepth, State.go, heq]
        · simp [htasks, State.put, State.setDepth, State.go, heq]
      · simp [State.put, State.setDepth, State.go]
      · rw [State.put_phase, hphases]
        exact hlock

theorem next (h : RecursiveOk addr s) (hexec : s.next addr t = some s') :
    RecursiveOk addr s' := by
  have hok := h.accounts.task t
  have hmem : s.tasks t ≠ .idle → s.Distinct t := h.distinct
  have hbound := (h.accounts.bound t).2
  have hlt := (h.accounts.bound t).1
  have hphase : s.phase t = (s.tasks t).phase (s.depth t) := rfl
  unfold State.next at hexec
  cases hpc : s.tasks t with
  | idle =>
    rw [hpc] at hexec
    exact absurd hexec (by simp)
  | comparing lockStatus =>
    rw [hpc] at hexec hok hmem hbound hphase
    obtain rfl := Option.some.inj hexec
    rw [State.go_eq_put]
    by_cases hdepth : s.depth t = 0
    · have hout : s.phase t = .out := hphase.trans (if_pos hdepth)
      have hne := h.accounts.owner_ne (hmem (by simp)) (by simp [hout, Inside])
      rw [if_neg hne]
      refine h.put (hmem (by simp)) ?_ (fun _ => ⟨rfl, rfl⟩) ?_ (by simp [hout, Inside])
        ⟨hlt, fun _ => hbound (by simp)⟩
      · refine Move.contend t _ hout ?_
        split_ifs
        · exact Or.inl rfl
        · exact Or.inr rfl
      · split_ifs
        · exact hdepth
        · exact hdepth
    · have hheld : s.phase t = .held := hphase.trans (if_neg hdepth)
      obtain ⟨howner, hcount⟩ := hok (by omega)
      rw [if_pos howner.symm]
      exact h.quiet (hmem (by simp)) rfl hheld.symm (fun _ => ⟨rfl, rfl⟩) ⟨howner, hcount⟩
        ⟨hlt, fun _ => hbound (by simp)⟩
  | exchanging =>
    rw [hpc] at hexec hok hmem hbound hphase
    obtain rfl := Option.some.inj hexec
    have hmove : Move addr s.word ⟨2, s.futexes,
        update s.phase t (if s.mutex.ivVal = 0 then .held else .waiting)⟩ :=
      .exchange t hphase
    rw [State.go_eq_put]
    by_cases hval : s.mutex.ivVal = 0
    · obtain ⟨howner, hcount⟩ := h.free_of_zero hval
      rw [if_pos hval] at hmove ⊢
      exact h.put (hmem (by simp)) hmove (fun _ => ⟨rfl, rfl⟩) ⟨hok, howner, hcount⟩
        (by simp [hphase, Pc.phase, Inside]) ⟨hlt, fun _ => hbound (by simp)⟩
    · rw [if_neg hval] at hmove ⊢
      exact h.put (hmem (by simp)) hmove (fun _ => ⟨rfl, rfl⟩) hok
        (by simp [hphase, Pc.phase, Inside]) ⟨hlt, fun _ => hbound (by simp)⟩
  | waiting =>
    rw [hpc] at hexec
    exact h.futexWait hpc hexec
  | compared =>
    rw [hpc] at hexec hok hmem hbound hphase
    obtain rfl := Option.some.inj hexec
    exact h.futex (hmem (by simp)) (.sleep t hphase) (by simp [hphase, Pc.phase, Inside]) hok
      ⟨hlt, fun _ => hbound (by simp)⟩
  | asleep =>
    rw [hpc] at hexec
    exact absurd hexec (by simp)
  | owning =>
    rw [hpc] at hexec hok hmem hbound hphase
    obtain rfl := Option.some.inj hexec
    obtain ⟨hdepth, -, hcount⟩ := hok
    rw [State.go_eq_put]
    exact h.quiet (hmem (by simp)) rfl hphase.symm (fun hout => absurd (Or.inl hphase) hout)
      ⟨rfl, hcount.trans hdepth.symm⟩ ⟨hlt, fun _ => hbound (by simp)⟩
  | loading =>
    rw [hpc] at hexec hok hmem hbound hphase
    obtain rfl := Option.some.inj hexec
    rw [State.go_eq_put]
    exact h.quiet (hmem (by simp)) rfl hphase.symm (fun _ => ⟨rfl, rfl⟩) ⟨hok.1, hok.2, hok.2⟩
      ⟨hlt, fun _ => hbound (by simp)⟩
  | storing count =>
    rw [hpc] at hexec hok hmem hbound hphase
    obtain rfl := Option.some.inj hexec
    obtain ⟨howner, -, hcount⟩ := hok
    refine h.quiet (hmem (by simp)) rfl hphase.symm (fun hout => absurd (Or.inl hphase) hout) ?_
      ⟨hbound (by simp), fun hno => absurd rfl hno⟩
    intro _
    refine ⟨howner, ?_⟩
    rw [hcount]
    exact add64_of_lt (hbound (by simp))
  | clearing =>
    rw [hpc] at hexec hok hmem hbound hphase
    obtain rfl := Option.some.inj hexec
    rw [State.go_eq_put]
    exact h.quiet (hmem (by simp)) rfl hphase.symm (fun hout => absurd (Or.inl hphase) hout)
      ⟨hok.1, hok.2, rfl⟩ ⟨hlt, fun _ => hbound (by simp)⟩
  | disowning =>
    rw [hpc] at hexec hok hmem hbound hphase
    obtain rfl := Option.some.inj hexec
    rw [State.go_eq_put]
    exact h.quiet (hmem (by simp)) rfl hphase.symm (fun hout => absurd (Or.inl hphase) hout)
      ⟨hok.1, rfl, hok.2.2⟩ ⟨hlt, fun _ => hbound (by simp)⟩
  | subtracting =>
    rw [hpc] at hexec hok hmem hbound hphase
    obtain rfl := Option.some.inj hexec
    obtain ⟨hdepth, howner, hcount⟩ := hok
    have hmove : Move addr s.word ⟨sub64 s.mutex.ivVal 1, s.futexes,
        update s.phase t (if s.mutex.ivVal ≥ 2 then .releasing else .out)⟩ :=
      .subtract t hphase
    have hidle : Pc.idle.phase (s.depth t) = .out := if_pos hdepth
    rw [State.go_eq_put]
    by_cases hval : s.mutex.ivVal ≥ 2
    · rw [if_pos hval] at hmove ⊢
      exact h.put (hmem (by simp)) hmove (fun _ => ⟨rfl, rfl⟩) ⟨hdepth, howner, hcount⟩
        (fun _ _ => ⟨howner, hcount⟩) ⟨hlt, fun _ => hbound (by simp)⟩
    · rw [if_neg hval, ← hidle] at hmove
      rw [if_neg hval]
      refine h.put (hmem (by simp)) hmove (fun _ => ⟨rfl, rfl⟩) (fun hpos => ?_)
        (fun _ _ => ⟨howner, hcount⟩) ⟨hlt, fun _ => hbound (by simp)⟩
      omega
  | releasing =>
    rw [hpc] at hexec hok hmem hbound hphase
    obtain rfl := Option.some.inj hexec
    obtain ⟨hdepth, howner, hcount⟩ := hok
    rw [State.go_eq_put]
    exact h.put (hmem (by simp)) (.store t hphase) (fun _ => ⟨rfl, rfl⟩) hdepth
      (fun _ _ => ⟨howner, hcount⟩) ⟨hlt, fun _ => hbound (by simp)⟩
  | waking =>
    rw [hpc] at hexec
    exact h.futexWake hpc hexec
  | reloading =>
    rw [hpc] at hexec hok hmem hbound hphase
    obtain rfl := Option.some.inj hexec
    obtain ⟨hpos, howner, hcount⟩ := hok
    rw [State.go_eq_put]
    exact h.quiet (hmem (by simp)) rfl hphase.symm (fun _ => ⟨rfl, rfl⟩)
      ⟨hpos, howner, hcount, hcount⟩ ⟨hlt, fun _ => hbound (by simp)⟩
  | restoring count =>
    rw [hpc] at hexec hok hmem hbound hphase
    obtain rfl := Option.some.inj hexec
    obtain ⟨hpos, howner, -, hcount⟩ := hok
    have hidle : Pc.idle.phase (s.depth t) = .held := if_neg (by omega)
    rw [State.go_eq_put]
    refine h.quiet (hmem (by simp)) rfl (hidle.trans hphase.symm)
      (fun hout => absurd (Or.inl hphase) hout) ?_ ⟨hlt, fun hno => absurd rfl hno⟩
    intro _
    refine ⟨howner, ?_⟩
    rw [hcount]
    exact sub64_of_le (by omega) (hbound (by simp))

theorem step {op : Op} (h : RecursiveOk addr s) (hstep : FineStep addr s op s') : RecursiveOk addr s' := by
  obtain ⟨⟨hallowed, hexec⟩, hfine⟩ := hstep
  cases op with
  | lock t => exact h.recursiveMutexLock hallowed hfine hexec
  | unlock t => exact h.recursiveMutexUnlock hallowed.1 hallowed.2 hexec
  | next t => exact h.next hexec
  | other futexes =>
    obtain rfl := Option.some.inj hexec
    refine of_accounts h.accounts rfl rfl rfl (h.lock.move (.other futexes hallowed.1 ?_))
    exact fun t ht => hallowed.2 t (Pc.eq_of_phase.2 ht)

theorem init {futexes : FutexManager} (h : futexes.waiters addr = []) :
    RecursiveOk addr (State.init futexes) := by
  refine ⟨LockOk.free rfl h fun _ => rfl, ⟨?_, ?_, ?_, ?_⟩⟩
  · intro t hactive
    exact absurd hactive (by simp [State.Active, State.init])
  · intro t hpos
    exact absurd hpos (by simp [State.init])
  · intro _
    exact ⟨rfl, rfl⟩
  · simp [State.init]

theorem inside_of_depth (h : RecursiveOk addr s) (hdepth : 0 < s.depth t) :
    (s.phase t).Inside := by
  have hok := h.accounts.task t
  rw [State.phase]
  cases hpc : s.tasks t with
  | idle => exact Or.inl (if_neg (by omega))
  | comparing lockStatus => exact Or.inl (if_neg (by omega))
  | exchanging =>
    rw [hpc] at hok
    exact absurd hok (Nat.ne_of_gt hdepth)
  | waiting =>
    rw [hpc] at hok
    exact absurd hok (Nat.ne_of_gt hdepth)
  | compared =>
    rw [hpc] at hok
    exact absurd hok (Nat.ne_of_gt hdepth)
  | asleep =>
    rw [hpc] at hok
    exact absurd hok (Nat.ne_of_gt hdepth)
  | waking =>
    rw [hpc] at hok
    exact absurd hok (Nat.ne_of_gt hdepth)
  | releasing => exact Or.inr rfl
  | _ => exact Or.inl rfl

theorem owner_of_depth (h : RecursiveOk addr s) (hdepth : 0 < s.depth t) :
    s.mutex.ivOwner = taskGettid t := by
  have hok := h.accounts.task t
  cases hpc : s.tasks t with
  | idle =>
    rw [hpc] at hok
    exact (hok hdepth).1
  | comparing lockStatus =>
    rw [hpc] at hok
    exact (hok hdepth).1
  | loading =>
    rw [hpc] at hok
    exact hok.1
  | storing count =>
    rw [hpc] at hok
    exact hok.1
  | reloading =>
    rw [hpc] at hok
    exact hok.2.1
  | restoring count =>
    rw [hpc] at hok
    exact hok.2.1
  | _ =>
    rw [hpc] at hok
    simp [TaskOk] at hok
    omega

end RecursiveOk

theorem State.next_frame {addr : Nat} {s s' : State} {t : Nat} (hout : ¬ (s.phase t).Inside)
    (hexec : s.next addr t = some s') :
    s'.mutex.ivOwner = s.mutex.ivOwner ∧ s'.mutex.ivOwnerLockCount = s.mutex.ivOwnerLockCount := by
  rw [State.phase] at hout
  unfold State.next at hexec
  cases hpc : s.tasks t with
  | idle =>
    rw [hpc] at hexec
    exact absurd hexec (by simp)
  | asleep =>
    rw [hpc] at hexec
    exact absurd hexec (by simp)
  | comparing lockStatus =>
    rw [hpc] at hexec
    obtain rfl := Option.some.inj hexec
    exact ⟨rfl, rfl⟩
  | exchanging =>
    rw [hpc] at hexec
    obtain rfl := Option.some.inj hexec
    exact ⟨rfl, rfl⟩
  | compared =>
    rw [hpc] at hexec
    obtain rfl := Option.some.inj hexec
    exact ⟨rfl, rfl⟩
  | waiting =>
    rw [hpc] at hexec
    replace hexec : s.futexWait t = some s' := hexec
    unfold State.futexWait at hexec
    split at hexec
    · exact absurd hexec (by simp)
    · obtain rfl := Option.some.inj hexec
      exact ⟨rfl, rfl⟩
  | waking =>
    rw [hpc] at hexec
    replace hexec : s.futexWake addr t = some s' := hexec
    unfold State.futexWake at hexec
    split at hexec
    · exact absurd hexec (by simp)
    · obtain rfl := Option.some.inj hexec
      exact ⟨rfl, rfl⟩
  | _ =>
    rw [hpc] at hout
    exact absurd (by simp [Pc.phase, Inside]) hout

theorem FineStep.frame {addr : Nat} {s s' : State} {op : Op}
    (hstep : FineStep addr s op s') (hout : ∀ t, op.task = some t → ¬ (s.phase t).Inside) :
    s'.mutex.ivOwner = s.mutex.ivOwner ∧ s'.mutex.ivOwnerLockCount = s.mutex.ivOwnerLockCount := by
  obtain ⟨⟨-, hexec⟩, -⟩ := hstep
  cases op with
  | lock t =>
    replace hexec : s.recursiveMutexLock t = some s' := hexec
    unfold State.recursiveMutexLock at hexec
    split_ifs at hexec
    · obtain rfl := Option.some.inj hexec
      exact ⟨rfl, rfl⟩
    · obtain rfl := Option.some.inj hexec
      exact ⟨rfl, rfl⟩
  | unlock t =>
    replace hexec : s.recursiveMutexUnlock t = some s' := hexec
    unfold State.recursiveMutexUnlock at hexec
    split_ifs at hexec
    · obtain rfl := Option.some.inj hexec
      exact ⟨rfl, rfl⟩
    · obtain rfl := Option.some.inj hexec
      exact ⟨rfl, rfl⟩
  | next t => exact State.next_frame (hout t rfl) hexec
  | other futexes =>
    obtain rfl := Option.some.inj hexec
    exact ⟨rfl, rfl⟩

/-! ## The law of the recursive mutex -/

/-- A task that is inside the part of `recursive_mutex_unlock` that gives up the
mutex. -/
def GivesUp (pc : Pc) : Prop :=
  pc = .clearing ∨ pc = .disowning ∨ pc = .subtracting ∨ pc = .releasing

/-- What holds in a state of a run. -/
structure Lawful (addr : Nat) (s : State) : Prop where
  /-- At most one task owns the mutex. -/
  unique : ∀ t t', 0 < s.depth t → 0 < s.depth t' → t = t'
  /-- The mutex is held while a task has a lock, and the count is the nesting. -/
  held : ∀ t, 0 < s.depth t → s.mutex.ivVal ≠ 0 ∧ s.mutex.ivOwner = taskGettid t ∧
    (s.tasks t = .idle → s.mutex.ivOwnerLockCount = s.depth t)
  /-- An unlock gives up the mutex exactly if it is the last one. -/
  unlock : ∀ t s', Step addr s (.unlock t) s' → (GivesUp (s'.tasks t) ↔ s.depth t = 1)
  /-- Only a task without a lock gives up the mutex. -/
  last : ∀ t, GivesUp (s.tasks t) → s.depth t = 0
  /-- The mutex is free unless a task has a lock or is in the code that takes or
  gives up the mutex. -/
  free : s.mutex.ivVal ≠ 0 → ∃ t, (s.phase t).Inside
  /-- No other task takes itself for the owner or changes the owner or the count. -/
  others : ∀ t, 0 < s.depth t →
    (∀ t', t' ≠ t → s.Distinct t' → taskGettid t' ≠ s.mutex.ivOwner) ∧
    ∀ op s', FineStep addr s op s' → op.task ≠ some t →
      s'.mutex.ivOwner = s.mutex.ivOwner ∧ s'.mutex.ivOwnerLockCount = s.mutex.ivOwnerLockCount

theorem RecursiveOk.unlock_iff {addr : Nat} {s s' : State} {t : Nat}
    (h : RecursiveOk addr s) (hstep : Step addr s (.unlock t) s') :
    GivesUp (s'.tasks t) ↔ s.depth t = 1 := by
  obtain ⟨⟨hidle, hdepth⟩, hexec⟩ := hstep
  have hok := h.accounts.task t
  rw [hidle] at hok
  have hcount := (hok hdepth).2
  replace hexec : s.recursiveMutexUnlock t = some s' := hexec
  unfold State.recursiveMutexUnlock at hexec
  split_ifs at hexec with hrecursive hone
  · obtain rfl := Option.some.inj hexec
    have htask : update s.tasks t Pc.clearing t = .clearing := update_self _ _ _
    exact iff_of_true (Or.inl htask) (by omega)
  · obtain rfl := Option.some.inj hexec
    have htask : update s.tasks t Pc.reloading t = .reloading := update_self _ _ _
    refine iff_of_false (fun hno => ?_) (by omega)
    replace hno : GivesUp (update s.tasks t Pc.reloading t) := hno
    rw [htask] at hno
    simp [GivesUp] at hno

theorem RecursiveOk.lawful {addr : Nat} {s : State} (h : RecursiveOk addr s) : Lawful addr s := by
  have hunique : ∀ t t', 0 < s.depth t → 0 < s.depth t' → t = t' := fun t t' ht ht' =>
    h.lock.exclusive.unique (h.inside_of_depth ht) (h.inside_of_depth ht')
  have hother : ∀ t t', 0 < s.depth t → t' ≠ t → ¬ (s.phase t').Inside := fun t t' ht hne hin =>
    hne (h.lock.exclusive.unique hin (h.inside_of_depth ht))
  refine ⟨hunique, fun t ht => ⟨?_, h.owner_of_depth ht, fun hidle => ?_⟩,
    fun t s' hstep => h.unlock_iff hstep, fun t hgives => ?_, h.lock.exclusive.exists_inside,
    fun t ht => ⟨fun t' hne hdistinct => ?_, fun op s' hstep hne => ?_⟩⟩
  · intro hzero
    rcases h.lock.exclusive.val_ne_zero (h.inside_of_depth ht) with hone | htwo
    · exact absurd (hzero.symm.trans hone) (by simp)
    · exact absurd (hzero.symm.trans htwo) (by simp)
  · have hok := h.accounts.task t
    rw [hidle] at hok
    exact (hok ht).2
  · have hok := h.accounts.task t
    rcases hgives with hpc | hpc | hpc | hpc
    · rw [hpc] at hok
      exact hok.1
    · rw [hpc] at hok
      exact hok.1
    · rw [hpc] at hok
      exact hok.1
    · rw [hpc] at hok
      exact hok.1
  · exact h.accounts.owner_ne hdistinct (hother t t' ht hne)
  · refine hstep.frame fun t' htask => hother t t' ht ?_
    rintro rfl
    exact hne htask

/-- In every run in which the tasks that lock have ids of their own, other than 0,
and do not nest their locks until the count wraps, the law of the recursive mutex
holds in every state. -/
theorem recursive_of_run {addr : Nat} {futexes : FutexManager} {ops : List Op} {s : State}
    (hfutexes : futexes.waiters addr = [])
    (hrun : Run (FineStep addr) (State.init futexes) ops s) : Lawful addr s := by
  have hok : RecursiveOk addr s :=
    hrun.invariant (RecursiveOk.init hfutexes) fun _ _ _ h hstep => h.step hstep
  exact hok.lawful

/-- Two tasks with ids of their own are distinct where no other task uses the mutex. -/
theorem State.distinct_of_idle {s : State} {t : Nat} (ht : t = 1 ∨ t = 2)
    (hidle : ∀ t', t' ≠ 1 → t' ≠ 2 → s.tasks t' = .idle ∧ s.depth t' = 0) : s.Distinct t := by
  refine ⟨by rcases ht with rfl | rfl <;> decide, fun t' hne hactive => ?_⟩
  have ht' : t' = 1 ∨ t' = 2 := by
    by_contra hno
    obtain ⟨htask, hdepth⟩ := hidle t' (fun h => hno (Or.inl h)) (fun h => hno (Or.inr h))
    rcases hactive with hactive | hactive
    · exact hactive htask
    · exact absurd hdepth (Nat.ne_of_gt hactive)
  rcases ht with rfl | rfl <;> rcases ht' with rfl | rfl <;> revert hne <;> decide

/-- Task 1 locks the mutex twice and unlocks it once while task 2 tries to lock it:
task 1 still owns the mutex. -/
theorem recursive_of_run_nested :
    ∃ s, Run (FineStep 8) (State.init ⟨none, []⟩)
        [.lock 1, .next 1, .next 1, .next 1, .lock 1, .next 1, .next 1, .next 1, .lock 2, .next 2,
          .unlock 1, .next 1, .next 1] s ∧
      s.depth 1 = 1 ∧ s.tasks 2 = .exchanging ∧ Lawful 8 s := by
  have hfine : ∀ (s : State) (t : Nat), t = 1 ∨ t = 2 →
      (∀ t', t' ≠ 1 → t' ≠ 2 → s.tasks t' = .idle ∧ s.depth t' = 0) → s.depth t + 1 < 2 ^ 64 →
      (Op.lock t).Fine s := fun s t ht hidle hdepth => ⟨State.distinct_of_idle ht hidle, hdepth⟩
  have hrun : ∃ s, Run (FineStep 8) (State.init ⟨none, []⟩)
      [.lock 1, .next 1, .next 1, .next 1, .lock 1, .next 1, .next 1, .next 1, .lock 2, .next 2,
        .unlock 1, .next 1, .next 1] s ∧ s.depth 1 = 1 ∧ s.tasks 2 = .exchanging := by
    refine ⟨_, .cons ⟨⟨rfl, rfl⟩, hfine _ 1 (Or.inl rfl) (fun t' h1 h2 => ⟨rfl, rfl⟩) (by decide)⟩
      (.cons ⟨⟨trivial, rfl⟩, trivial⟩ (.cons ⟨⟨trivial, rfl⟩, trivial⟩
      (.cons ⟨⟨trivial, rfl⟩, trivial⟩ (.cons ⟨⟨rfl, rfl⟩, hfine _ 1 (Or.inl rfl)
        (fun t' h1 h2 => ⟨by simp [State.go, State.setDepth, State.init],
          by simp [update, State.go, State.setDepth, h1, State.init]⟩) (by decide)⟩
      (.cons ⟨⟨trivial, rfl⟩, trivial⟩ (.cons ⟨⟨trivial, rfl⟩, trivial⟩
      (.cons ⟨⟨trivial, rfl⟩, trivial⟩ (.cons ⟨⟨rfl, rfl⟩, hfine _ 2 (Or.inr rfl)
        (fun t' h1 h2 => ⟨by simp [update, State.go, State.setDepth, State.init],
          by simp [update, State.go, State.setDepth, h1, State.init]⟩) (by decide)⟩
      (.cons ⟨⟨trivial, rfl⟩, trivial⟩ (.cons ⟨⟨⟨rfl, by decide⟩, rfl⟩, trivial⟩
      (.cons ⟨⟨trivial, rfl⟩, trivial⟩ (.cons ⟨⟨trivial, rfl⟩, trivial⟩ .nil)))))))))))), rfl,
      rfl⟩
  obtain ⟨s, hrun, hdepth, htask⟩ := hrun
  exact ⟨s, hrun, hdepth, htask, recursive_of_run rfl hrun⟩

/-- Task 1 has taken the word and not yet written the owner, when the task 65536,
whose id is 0, finds the word taken: both own the mutex. -/
theorem two_owners :
    ∃ s, Run (Step 8) (State.init ⟨none, []⟩)
        [.lock 1, .lock 65536, .next 65536, .next 65536, .next 65536, .next 1, .next 1, .next 1] s ∧
      taskGettid 1 ≠ taskGettid 65536 ∧ s.depth 1 = 1 ∧ s.depth 65536 = 1 ∧ s.tasks 1 = .idle ∧
      s.tasks 65536 = .idle := by
  refine ⟨_, .cons ⟨rfl, rfl⟩ (.cons ⟨rfl, rfl⟩ (.cons ⟨trivial, rfl⟩
    (.cons ⟨trivial, rfl⟩ (.cons ⟨trivial, rfl⟩ (.cons ⟨trivial, rfl⟩ (.cons ⟨trivial, rfl⟩
      (.cons ⟨trivial, rfl⟩ .nil))))))), by decide, rfl, rfl, rfl, rfl⟩

end Hostboot.Sync.Recursive
