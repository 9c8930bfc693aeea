import Mathlib
import Hostboot.Sync.Mutex

/-!
# Condition variables

`sync_cond_wait`, `sync_cond_signal` and `sync_cond_broadcast` of `src/lib/sync.C`, called
with the associated mutex held.  The steps of the mutex are those of
`Hostboot.Sync.Mutex`; `Ctl` says where a task is in the code of the condition
variable.  The loop at the end of `sync_cond_wait` is the slow path of
`mutex_lock`, so a task that goes on there is before the exchange of the mutex.

While a task holds the mutex nobody else uses the fields of the condition variable,
except the comparison of `futex_wait`.  So the test of the mutex field in
`sync_cond_wait` is one step, and so are its loads in `sync_cond_broadcast`.

Task pointers have 64 bits, and so has the sequence number, which can wrap.
`since` is not in the source: how often the sequence number was incremented since
a task loaded it.
-/

namespace Hostboot.Sync.Cond

open Hostboot.Lib Phase List
open Function (update update_of_ne update_self)

/-- The addresses of the two futexes. -/
structure Addrs where
  /-- `iv_val` of the mutex. -/
  mutex : Nat
  /-- `sequence` of the condition variable. -/
  sequence : Nat
  ne : sequence ≠ mutex

/-- Where a task is in the code of the condition variable. -/
inductive Ctl where
  | idle
  /-- In `sync_cond_wait`, after the load of the sequence number. -/
  | associating (seq : Nat)
  /-- In `mutex_unlock` of `sync_cond_wait`, or after it and before `futex_wait`. -/
  | unlocking (seq : Nat)
  /-- In `futex_wait` on the sequence number, after the comparison. -/
  | settling
  /-- Asleep on the sequence number. -/
  | sleeping
  /-- Moved to the futex of the mutex. -/
  | requeued
  /-- In `sync_cond_signal`, after the increment. -/
  | signalling
  /-- In `sync_cond_broadcast`, after the increment. -/
  | broadcasting (m : Nat)
  deriving DecidableEq, Repr

/-- The task can call a function of the condition variable or of the mutex. -/
def Ctl.Free (c : Ctl) : Prop := c = .idle ∨ c = .requeued

theorem Ctl.Free.ne_sleeping {c : Ctl} (h : c.Free) : c ≠ .sleeping := by
  rcases h with rfl | rfl
  · exact Ctl.noConfusion
  · exact Ctl.noConfusion

/-- The mutex with its tasks, the condition variable, and the code of the tasks. -/
structure State where
  base : Plain.State
  condMutex : Option Nat
  sequence : Nat
  ctl : Nat → Ctl
  since : Nat → Nat

namespace State

def setCtl (s : State) (t : Nat) (c : Ctl) : State := { s with ctl := update s.ctl t c }

/-- `sync_cond_wait` up to the load of the sequence number. -/
def syncCondWait (s : State) (t : Nat) : State :=
  { s.setCtl t (.associating s.sequence) with since := update s.since t 0 }

/-- The test of the mutex field; the call can end with `EINVAL`. -/
def associate (A : Addrs) (s : State) (t : Nat) : Option State :=
  match s.ctl t with
  | .associating seq =>
    if s.condMutex = some A.mutex then some (s.setCtl t (.unlocking seq))
    else if s.condMutex.isSome then some (s.setCtl t .idle)
    else some { s.setCtl t (.unlocking seq) with condMutex := some A.mutex }
  | _ => none

/-- `futex_wait` on the sequence number up to the comparison. -/
def pause (s : State) (t : Nat) : Option State :=
  match s.ctl t with
  | .unlocking seq =>
    match s.base.futexes.waitCompare t s.sequence seq with
    | none => none
    | some (futexes, true) =>
      some { s.setCtl t .settling with base := { s.base with futexes := futexes } }
    | some (_, false) => some { s.setCtl t .idle with base := s.base.setTask t .exchanging }
  | _ => none

/-- The rest of `futex_wait` for a task that sleeps. -/
def settle (A : Addrs) (s : State) (t : Nat) : State :=
  { s.setCtl t .sleeping with
    base := { s.base with futexes := s.base.futexes.waitInsert t A.sequence } }

/-- The increment of the sequence number. -/
def increment (s : State) : State :=
  { s with sequence := add64 s.sequence 1, since := fun t => s.since t + 1 }

/-- `sync_cond_signal` up to the increment. -/
def syncCondSignal (s : State) (t : Nat) : State := s.increment.setCtl t .signalling

/-- `sync_cond_broadcast` up to the increment. -/
def syncCondBroadcast (s : State) (t : Nat) : State :=
  match s.condMutex with
  | none => s
  | some m => s.increment.setCtl t (.broadcasting m)

/-- The tasks that were started go on before the exchange of the mutex, and those
that were moved sleep on its futex. -/
def release (s : State) (futexes : FutexManager) (tasks moved : List Nat) : State :=
  { s with
    base :=
      { s.base with
        futexes := futexes
        tasks := fun t =>
          if t ∈ tasks then .exchanging else if t ∈ moved then .asleep else s.base.tasks t }
    ctl := fun t => if t ∈ tasks then .idle else if t ∈ moved then .requeued else s.ctl t }

/-- `futex_wake` in `sync_cond_signal` and `futex_requeue` in `sync_cond_broadcast`. -/
def condWake (A : Addrs) (s : State) (t : Nat) : Option State :=
  match s.ctl t with
  | .signalling =>
    match s.base.futexes.wake A.sequence 1 none 0 with
    | none => none
    | some (futexes, tasks) => some ((s.setCtl t .idle).release futexes tasks [])
  | .broadcasting m =>
    match s.base.futexes.wake A.sequence 1 (some m) (2 ^ 64 - 1) with
    | none => none
    | some (futexes, tasks) =>
      let moved := (s.base.futexes.waiters A.sequence).filter (· ∈ futexes.waiters m)
      some ((s.setCtl t .idle).release futexes tasks moved)
  | _ => none

/-- A mutex and a condition variable nobody has used. -/
def init (futexes : FutexManager) : State where
  base := Plain.State.init futexes
  condMutex := none
  sequence := 0
  ctl := fun _ => .idle
  since := fun _ => 0

end State

/-- The steps of the tasks. -/
inductive Op where
  /-- A step of the mutex, or of the futex manager for another futex. -/
  | mutex (op : Plain.Op)
  | condWait (t : Nat)
  | associate (t : Nat)
  | pause (t : Nat)
  | settle (t : Nat)
  | signal (t : Nat)
  | broadcast (t : Nat)
  | condWake (t : Nat)
  deriving DecidableEq, Repr

/-- The task that takes the step. -/
def Op.task : Op → Option Nat
  | .mutex op => op.task
  | .condWait t | .associate t | .pause t | .settle t | .signal t | .broadcast t
  | .condWake t => some t

/-- When the code of the condition variable takes a step of the mutex. -/
def MutexAllowed (A : Addrs) (s : State) : Plain.Op → Prop
  | .lock t => (s.ctl t).Free
  | .unlock t => (s.ctl t).Free ∨ ∃ seq, s.ctl t = .unlocking seq
  | .other futexes => futexes.waiters A.sequence = s.base.futexes.waiters A.sequence ∧
      ∀ t, s.ctl t = .settling → futexes.ivLock = s.base.futexes.ivLock
  | _ => True

/-- The functions of the condition variable are called with the mutex held. -/
def Op.Allowed (A : Addrs) (s : State) : Op → Prop
  | .mutex op => op.Allowed A.mutex s.base ∧ MutexAllowed A s op
  | .condWait t => s.base.tasks t = .held ∧ (s.ctl t).Free ∧ t < 2 ^ 64
  | .associate t => ∃ seq, s.ctl t = .associating seq
  | .pause t => s.base.tasks t = .out ∧ ∃ seq, s.ctl t = .unlocking seq
  | .settle t => s.ctl t = .settling
  | .signal t => s.base.tasks t = .held ∧ (s.ctl t).Free
  | .broadcast t => s.base.tasks t = .held ∧ (s.ctl t).Free
  | .condWake t => s.ctl t = .signalling ∨ ∃ m, s.ctl t = .broadcasting m

/-- One step. -/
def State.exec (A : Addrs) (s : State) : Op → Option State
  | .mutex op => (s.base.exec A.mutex op).map fun base => { s with base := base }
  | .condWait t => some (s.syncCondWait t)
  | .associate t => s.associate A t
  | .pause t => s.pause t
  | .settle t => some (s.settle A t)
  | .signal t => some (s.syncCondSignal t)
  | .broadcast t => some (s.syncCondBroadcast t)
  | .condWake t => s.condWake A t

/-- An allowed step with a result. -/
def Step (A : Addrs) (s : State) (op : Op) (s' : State) : Prop :=
  op.Allowed A s ∧ s.exec A op = some s'

/-- The sequence number is not incremented so often that it comes back to the value
that a task has loaded and has not compared yet. -/
def Op.Fine (s : State) : Op → Prop
  | .signal _ | .broadcast _ => ∀ t seq, s.ctl t = .unlocking seq → s.since t + 1 < 2 ^ 64
  | _ => True

/-- A fine step. -/
def FineStep (A : Addrs) (s : State) (op : Op) (s' : State) : Prop :=
  Step A s op s' ∧ op.Fine s

/-! ## The invariant -/

/-- What the mutex and the fields of the condition variable are for a task at a
place of the code. -/
def TaskOk (A : Addrs) (s : State) (t : Nat) : Prop :=
  match s.ctl t with
  | .idle | .requeued => True
  | .associating seq => s.base.tasks t = .held ∧ seq < 2 ^ 64 ∧
      s.since t < 2 ^ 64 ∧ s.sequence = (seq + s.since t) % 2 ^ 64 ∧ t < 2 ^ 64
  | .unlocking seq =>
    (s.base.tasks t = .held ∨ s.base.tasks t = .releasing ∨ s.base.tasks t = .waking ∨
      s.base.tasks t = .out) ∧ seq < 2 ^ 64 ∧ s.since t < 2 ^ 64 ∧
      s.sequence = (seq + s.since t) % 2 ^ 64 ∧ s.condMutex = some A.mutex ∧ t < 2 ^ 64
  | .settling => s.base.tasks t = .out ∧ s.condMutex = some A.mutex ∧
      s.base.futexes.ivLock = some t ∧ t < 2 ^ 64
  | .sleeping => s.base.tasks t = .out ∧ s.condMutex = some A.mutex ∧ t < 2 ^ 64
  | .signalling => s.base.tasks t = .held
  | .broadcasting m => s.base.tasks t = .held ∧ m = A.mutex

/-- The invariant of the condition variable and its mutex. -/
structure CondOk (A : Addrs) (s : State) : Prop where
  lock : LockOk A.mutex s.base.word
  task : ∀ t, TaskOk A s t
  mem : ∀ t, t ∈ s.base.futexes.waiters A.sequence ↔ s.ctl t = .sleeping
  nodup : (s.base.futexes.waiters A.sequence).Nodup
  assoc : s.condMutex = none ∨ s.condMutex = some A.mutex
  seq : s.sequence < 2 ^ 64

/-! ## Steps of the mutex -/

section Mutex

variable {A : Addrs} {s : State} {op : Plain.Op} {b : Plain.State} {t : Nat}

theorem MutexAllowed.ne_lock (h : MutexAllowed A s op) (hfree : ¬ (s.ctl t).Free) :
    op ≠ .lock t := by
  rintro rfl
  exact hfree h

theorem MutexAllowed.ne_unlock (h : MutexAllowed A s op) (hfree : ¬ (s.ctl t).Free)
    (hctl : ∀ seq, s.ctl t ≠ .unlocking seq) : op ≠ .unlock t := by
  rintro rfl
  rcases h with hno | ⟨seq, hno⟩
  · exact hfree hno
  · exact hctl seq hno

theorem CondOk.mutex (h : CondOk A s) (hallowed : MutexAllowed A s op)
    (hstep : Plain.Step A.mutex s.base op b) : CondOk A { s with base := b } := by
  have hwaiters : b.futexes.waiters A.sequence = s.base.futexes.waiters A.sequence := by
    by_cases hother : ∃ futexes, op = .other futexes
    · obtain ⟨futexes, rfl⟩ := hother
      obtain rfl := Option.some.inj hstep.2
      exact hallowed.1
    · exact hstep.waiters_of_ne A.ne (not_exists.mp hother)
  have hlocked : ∀ t, s.ctl t = .settling → s.base.tasks t = .out →
      s.base.futexes.ivLock = some t → b.futexes.ivLock = some t := by
    intro t hctl hout hsome
    by_cases hother : ∃ futexes, op = .other futexes
    · obtain ⟨futexes, rfl⟩ := hother
      obtain rfl := Option.some.inj hstep.2
      exact (hallowed.2 t hctl).trans hsome
    · exact hstep.ivLock_of_some h.lock hsome (by simp [hout]) (not_exists.mp hother)
  refine ⟨h.lock.move hstep.move, fun t => ?_, ?_, ?_, h.assoc, h.seq⟩
  · have hok := h.task t
    unfold TaskOk at hok ⊢
    dsimp only
    cases hctl : s.ctl t with
    | idle => trivial
    | requeued => trivial
    | associating seq =>
      rw [hctl] at hok
      refine ⟨hstep.held_of_ne h.lock hok.1 (hallowed.ne_unlock ?_ ?_), hok.2⟩
      · simp [Ctl.Free, hctl]
      · simp [hctl]
    | unlocking seq =>
      rw [hctl] at hok
      refine ⟨hstep.leaving_of_ne h.lock hok.1 (hallowed.ne_lock ?_), hok.2⟩
      simp [Ctl.Free, hctl]
    | settling =>
      rw [hctl] at hok
      obtain ⟨hout, hassoc, hsome, hlt⟩ := hok
      refine ⟨hstep.out_of_ne h.lock hout (hallowed.ne_lock ?_), hassoc,
        hlocked t hctl hout hsome, hlt⟩
      simp [Ctl.Free, hctl]
    | sleeping =>
      rw [hctl] at hok
      refine ⟨hstep.out_of_ne h.lock hok.1 (hallowed.ne_lock ?_), hok.2⟩
      simp [Ctl.Free, hctl]
    | signalling =>
      rw [hctl] at hok
      refine hstep.held_of_ne h.lock hok (hallowed.ne_unlock ?_ ?_)
      · simp [Ctl.Free, hctl]
      · simp [hctl]
    | broadcasting m =>
      rw [hctl] at hok
      refine ⟨hstep.held_of_ne h.lock hok.1 (hallowed.ne_unlock ?_ ?_), hok.2⟩
      · simp [Ctl.Free, hctl]
      · simp [hctl]
  · show ∀ t, t ∈ b.futexes.waiters A.sequence ↔ s.ctl t = .sleeping
    rw [hwaiters]
    exact h.mem
  · show (b.futexes.waiters A.sequence).Nodup
    rw [hwaiters]
    exact h.nodup

end Mutex

/-! ## Steps of the condition variable -/

section Steps

variable {A : Addrs} {s s' : State} {t : Nat}

theorem TaskOk.congr (h : TaskOk A s t) (hctl : s'.ctl t = s.ctl t)
    (htasks : s'.base.tasks t = s.base.tasks t) (hsince : s'.since t = s.since t)
    (hseq : s'.sequence = s.sequence) (hmutex : s.condMutex = some A.mutex →
      s'.condMutex = some A.mutex)
    (hlock : s.ctl t = .settling → s'.base.futexes.ivLock = s.base.futexes.ivLock) :
    TaskOk A s' t := by
  unfold TaskOk at h ⊢
  rw [hctl, htasks, hsince, hseq]
  cases hc : s.ctl t with
  | settling =>
    rw [hc] at h
    rw [hlock hc]
    exact ⟨h.1, hmutex h.2.1, h.2.2⟩
  | unlocking seq =>
    rw [hc] at h
    exact ⟨h.1, h.2.1, h.2.2.1, h.2.2.2.1, hmutex h.2.2.2.2.1, h.2.2.2.2.2⟩
  | sleeping =>
    rw [hc] at h
    exact ⟨h.1, hmutex h.2.1, h.2.2⟩
  | _ =>
    rw [hc] at h
    exact h

/-- A task goes to another place of the code, and nothing else of the mutex or of the
futexes changes. -/
theorem CondOk.setCtl {c : Ctl} (h : CondOk A s) (hold : s.ctl t ≠ .sleeping)
    (hnew : c ≠ .sleeping) (hbase : s'.base = s.base)
    (hctl : s'.ctl = update s.ctl t c) (hsince : ∀ t', t' ≠ t → s'.since t' = s.since t')
    (hseq : s'.sequence = s.sequence)
    (hmutex : s.condMutex = some A.mutex → s'.condMutex = some A.mutex)
    (hassoc : s'.condMutex = none ∨ s'.condMutex = some A.mutex) (hself : TaskOk A s' t) :
    CondOk A s' := by
  refine ⟨?_, fun t' => ?_, fun t' => ?_, ?_, hassoc, ?_⟩
  · rw [hbase]
    exact h.lock
  · by_cases heq : t' = t
    · rw [heq]
      exact hself
    · refine (h.task t').congr ?_ (by rw [hbase]) (hsince t' heq) hseq hmutex (by simp [hbase])
      rw [hctl, update_of_ne heq]
  · rw [hbase, h.mem, hctl]
    by_cases heq : t' = t
    · subst heq
      rw [update_self]
      exact iff_of_false hold hnew
    · rw [update_of_ne heq]
  · rw [hbase]
    exact h.nodup
  · rw [hseq]
    exact h.seq

theorem CondOk.syncCondWait (h : CondOk A s) (ht : s.base.tasks t = .held) (hfree : (s.ctl t).Free)
    (hlt : t < 2 ^ 64) : CondOk A (s.syncCondWait t) := by
  refine h.setCtl (t := t) (c := .associating s.sequence) hfree.ne_sleeping (by simp) rfl rfl ?_ rfl
    id h.assoc ?_
  · intro t' hne
    exact update_of_ne hne _ _
  · have hseq := h.seq
    unfold TaskOk
    simp only [State.syncCondWait, State.setCtl, update_self]
    exact ⟨ht, hseq, by norm_num, by rw [Nat.add_zero, Nat.mod_eq_of_lt hseq], hlt⟩

theorem CondOk.associate (h : CondOk A s) (hexec : s.associate A t = some s') : CondOk A s' := by
  have hok := h.task t
  unfold State.associate at hexec
  unfold TaskOk at hok
  cases hctl : s.ctl t with
  | associating seq =>
    rw [hctl] at hexec hok
    obtain ⟨hheld, hseq, hsince, heq, hlt⟩ := hok
    dsimp only at hexec
    split_ifs at hexec with hmutex hother
    · obtain rfl := Option.some.inj hexec
      refine h.setCtl (t := t) (c := .unlocking seq) (by simp [hctl]) (by simp) rfl rfl
        (fun _ _ => rfl) rfl id h.assoc ?_
      simp only [TaskOk, State.setCtl, update_self]
      exact ⟨Or.inl hheld, hseq, hsince, heq, hmutex, hlt⟩
    · obtain rfl := Option.some.inj hexec
      refine h.setCtl (t := t) (c := .idle) (by simp [hctl]) (by simp) rfl rfl
        (fun _ _ => rfl) rfl id h.assoc ?_
      simp [TaskOk, State.setCtl]
    · obtain rfl := Option.some.inj hexec
      refine h.setCtl (t := t) (c := .unlocking seq) (by simp [hctl]) (by simp) rfl rfl
        (fun _ _ => rfl) rfl (fun _ => rfl) (Or.inr rfl) ?_
      simp only [TaskOk, State.setCtl, update_self]
      exact ⟨Or.inl hheld, hseq, hsince, heq, trivial, hlt⟩
  | _ =>
    rw [hctl] at hexec
    exact absurd hexec (by simp)

theorem CondOk.pause (h : CondOk A s) (ht : s.base.tasks t = .out)
    (hexec : s.pause t = some s') : CondOk A s' := by
  have hok := h.task t
  unfold State.pause at hexec
  unfold TaskOk at hok
  cases hctl : s.ctl t with
  | unlocking seq =>
    rw [hctl] at hexec hok
    obtain ⟨-, -, -, -, hmutex, hlt⟩ := hok
    have hmem : ∀ c, c ≠ Ctl.sleeping → ∀ t', t' ∈ s.base.futexes.waiters A.sequence ↔
        update s.ctl t c t' = .sleeping := by
      intro c hc t'
      rw [h.mem]
      by_cases heq : t' = t
      · subst heq
        simp [hctl, hc]
      · rw [update_of_ne heq]
    cases hfm : s.base.futexes.waitCompare t s.sequence seq with
    | none =>
      simp only [hfm] at hexec
      exact absurd hexec (by simp)
    | some pair =>
      obtain ⟨fm, sleep⟩ := pair
      obtain ⟨hfree, ⟨-, rfl, rfl⟩ | ⟨hval, rfl, rfl⟩⟩ := FutexManager.waitCompare_cases hfm
      · simp only [hfm] at hexec
        obtain rfl := Option.some.inj hexec
        refine ⟨h.lock.move (.contend t .exchanging ht (Or.inl rfl)), fun t' => ?_, ?_, h.nodup,
          h.assoc, h.seq⟩
        · by_cases heq : t' = t
          · simp [TaskOk, State.setCtl, heq]
          · refine (h.task t').congr ?_ ?_ rfl rfl id (fun _ => rfl)
            · exact update_of_ne heq _ _
            · exact update_of_ne heq _ _
        · exact hmem .idle (by simp)
      · simp only [hfm] at hexec
        obtain rfl := Option.some.inj hexec
        refine ⟨h.lock.move (.other _ rfl ?_), fun t' => ?_, ?_, h.nodup, h.assoc, h.seq⟩
        · intro t' hcompared
          have hno := h.lock.listed.locked t' hcompared
          exact absurd (hno.symm.trans hfree) (by simp)
        · by_cases heq : t' = t
          · subst heq
            simp only [TaskOk, State.setCtl, update_self]
            exact ⟨ht, hmutex, trivial, hlt⟩
          · refine (h.task t').congr ?_ rfl rfl rfl id ?_
            · exact update_of_ne heq _ _
            · intro hsettling
              have hno := h.task t'
              unfold TaskOk at hno
              rw [hsettling] at hno
              exact absurd (hno.2.2.1.symm.trans hfree) (by simp)
        · exact hmem .settling (by simp)
  | _ =>
    rw [hctl] at hexec
    exact absurd hexec (by simp)

theorem CondOk.settle (h : CondOk A s) (hctl : s.ctl t = .settling) : CondOk A (s.settle A t) := by
  have hok := h.task t
  unfold TaskOk at hok
  rw [hctl] at hok
  obtain ⟨hout, hmutex, hsome, hlt⟩ := hok
  have hsame : (s.base.futexes.waitInsert t A.sequence).waiters A.mutex
      = s.base.futexes.waiters A.mutex := FutexManager.waiters_waitInsert_of_ne _ _ A.ne
  refine ⟨h.lock.move (.other _ hsame ?_), fun t' => ?_, fun t' => ?_, ?_, h.assoc, h.seq⟩
  · intro t' hcompared
    have hown := h.lock.listed.locked t' hcompared
    obtain rfl : t' = t := Option.some.inj (hown.symm.trans hsome)
    exact absurd (hcompared.symm.trans hout) (by simp)
  · by_cases heq : t' = t
    · subst heq
      simp only [TaskOk, State.settle, State.setCtl, update_self]
      exact ⟨hout, hmutex, hlt⟩
    · refine (h.task t').congr ?_ rfl rfl rfl id ?_
      · exact update_of_ne heq _ _
      · intro hsettling
        have hno := h.task t'
        unfold TaskOk at hno
        rw [hsettling] at hno
        exact absurd (Option.some.inj (hno.2.2.1.symm.trans hsome)) heq
  · simp only [State.settle, State.setCtl]
    rw [FutexManager.waiters_waitInsert, mem_cons, h.mem]
    by_cases heq : t' = t
    · subst heq
      simp
    · simp [heq]
  · simp only [State.settle]
    rw [FutexManager.waiters_waitInsert]
    refine nodup_cons.mpr ⟨fun hno => ?_, h.nodup⟩
    have hsleeping := (h.mem t).mp hno
    exact absurd (hctl.symm.trans hsleeping) (by simp)

/-- The increment of the sequence number, by a task that holds the mutex. -/
theorem CondOk.increment (h : CondOk A s) (ht : s.base.tasks t = .held) (hfree : (s.ctl t).Free)
    (hfine : ∀ t seq, s.ctl t = .unlocking seq → s.since t + 1 < 2 ^ 64) :
    CondOk A s.increment := by
  have hnext : ∀ seq since, s.sequence = (seq + since) % 2 ^ 64 →
      add64 s.sequence 1 = (seq + (since + 1)) % 2 ^ 64 := by
    intro seq since heq
    rw [heq, add64, Nat.mod_add_mod, Nat.add_assoc]
  refine ⟨h.lock, fun t' => ?_, h.mem, h.nodup, h.assoc, Nat.mod_lt _ (by norm_num)⟩
  have hok := h.task t'
  unfold TaskOk at hok ⊢
  simp only [State.increment]
  cases hctl : s.ctl t' with
  | associating seq =>
    -- Only one task is inside, and it is not in `sync_cond_wait`.
    rw [hctl] at hok
    obtain rfl : t' = t := h.lock.exclusive.unique (Or.inl hok.1) (Or.inl ht)
    rcases hfree with hc | hc
    · exact absurd (hctl.symm.trans hc) (by simp)
    · exact absurd (hctl.symm.trans hc) (by simp)
  | unlocking seq =>
    rw [hctl] at hok
    obtain ⟨hphase, hseq, -, heq, hrest⟩ := hok
    exact ⟨hphase, hseq, hfine t' seq hctl, hnext seq (s.since t') heq, hrest⟩
  | _ =>
    rw [hctl] at hok
    exact hok

theorem CondOk.syncCondSignal (h : CondOk A s) (ht : s.base.tasks t = .held)
    (hfree : (s.ctl t).Free)
    (hfine : ∀ t seq, s.ctl t = .unlocking seq → s.since t + 1 < 2 ^ 64) :
    CondOk A (s.syncCondSignal t) := by
  refine (h.increment ht hfree hfine).setCtl (t := t) (c := .signalling) hfree.ne_sleeping (by simp)
    rfl rfl (fun _ _ => rfl) rfl id h.assoc ?_
  simp only [TaskOk, State.syncCondSignal, State.setCtl, update_self]
  exact ht

theorem CondOk.syncCondBroadcast (h : CondOk A s) (ht : s.base.tasks t = .held)
    (hfree : (s.ctl t).Free)
    (hfine : ∀ t seq, s.ctl t = .unlocking seq → s.since t + 1 < 2 ^ 64) :
    CondOk A (s.syncCondBroadcast t) := by
  unfold State.syncCondBroadcast
  cases hmutex : s.condMutex with
  | none => exact h
  | some m =>
    have hm : m = A.mutex := by simpa [hmutex] using h.assoc
    refine (h.increment ht hfree hfine).setCtl (t := t) (c := .broadcasting m) hfree.ne_sleeping
      (by simp) rfl rfl (fun _ _ => rfl) rfl id h.assoc ?_
    simp only [TaskOk, State.setCtl, update_self]
    exact ⟨ht, hm⟩

/-- Sleeping tasks are started or moved while the lock of the futex manager is
free. -/
theorem CondOk.release {fm : FutexManager} {tasks moved rest : List Nat} (h : CondOk A s)
    (hctl : s.ctl t ≠ .sleeping)
    (hwaiters : s.base.futexes.waiters A.sequence = tasks ++ moved ++ rest)
    (hrest : fm.waiters A.sequence = rest) (hfree : s.base.futexes.ivLock = none)
    (hlock : LockOk A.mutex ((s.setCtl t .idle).release fm tasks moved).base.word) :
    CondOk A ((s.setCtl t .idle).release fm tasks moved) := by
  have hnodup := h.nodup
  rw [hwaiters, nodup_append] at hnodup
  have hsleeping : ∀ t', t' ∈ tasks ++ moved ++ rest ↔ s.ctl t' = .sleeping := by
    rw [← hwaiters]
    exact h.mem
  have hnot : t ∉ tasks ++ moved ++ rest := fun hmem => hctl ((hsleeping t).mp hmem)
  refine ⟨hlock, fun t' => ?_, fun t' => ?_, ?_, h.assoc, h.seq⟩
  · by_cases htasks : t' ∈ tasks
    · simp [TaskOk, State.release, htasks]
    by_cases hmoved : t' ∈ moved
    · simp [TaskOk, State.release, htasks, hmoved]
    by_cases heq : t' = t
    · simp [TaskOk, State.release, State.setCtl, heq] at hnot ⊢
      simp [hnot]
    refine (h.task t').congr ?_ ?_ rfl rfl id fun hsettling => ?_
    · simp [State.release, State.setCtl, htasks, hmoved, heq]
    · simp [State.release, State.setCtl, htasks, hmoved]
    · have hno := h.task t'
      unfold TaskOk at hno
      rw [hsettling] at hno
      exact absurd (hno.2.2.1.symm.trans hfree) (by simp)
  · show t' ∈ fm.waiters A.sequence ↔ (if t' ∈ tasks then Ctl.idle
      else if t' ∈ moved then .requeued else update s.ctl t .idle t') = .sleeping
    rw [hrest]
    have hmem := hsleeping t'
    simp only [mem_append] at hmem hnot
    split_ifs with htasks hmoved
    · exact iff_of_false (fun hmem' =>
        hnodup.2.2 t' (mem_append_left _ htasks) t' hmem' rfl) (by simp)
    · exact iff_of_false (fun hmem' =>
        hnodup.2.2 t' (mem_append_right _ hmoved) t' hmem' rfl) (by simp)
    · by_cases heq : t' = t
      · subst heq
        rw [update_self]
        exact iff_of_false (fun hmem' => hnot (Or.inr hmem')) (by simp)
      · rw [update_of_ne heq, ← hmem]
        simp [htasks, hmoved]
  · show (fm.waiters A.sequence).Nodup
    rw [hrest]
    exact hnodup.2.1

theorem CondOk.length_le (h : CondOk A s) :
    (s.base.futexes.waiters A.sequence).length ≤ 2 ^ 64 := by
  have hlt : ∀ t ∈ s.base.futexes.waiters A.sequence, t < 2 ^ 64 := by
    intro t ht
    have hok := h.task t
    unfold TaskOk at hok
    rw [(h.mem t).mp ht] at hok
    exact hok.2.2
  have hcard := toFinset_card_of_nodup h.nodup
  have hsubset : (s.base.futexes.waiters A.sequence).toFinset ⊆ Finset.range (2 ^ 64) := by
    intro t ht
    exact Finset.mem_range.mpr (hlt t (mem_toFinset.mp ht))
  have hle := Finset.card_le_card hsubset
  rw [hcard, Finset.card_range] at hle
  exact hle

theorem CondOk.out_of_sleeping (h : CondOk A s) (hctl : s.ctl t = .sleeping) :
    s.base.tasks t = .out := by
  have hok := h.task t
  unfold TaskOk at hok
  rw [hctl] at hok
  exact hok.1

theorem CondOk.signal_cases (h : CondOk A s) (hctl : s.ctl t = .signalling)
    (hexec : s.condWake A t = some s') :
    s.base.futexes.ivLock = none ∧ CondOk A s' ∧
      ∃ fm tasks, s' = (s.setCtl t .idle).release fm tasks [] ∧
        tasks = (s.base.futexes.waiters A.sequence).take 1 := by
  unfold State.condWake at hexec
  simp only [hctl] at hexec
  cases hfm : s.base.futexes.wake A.sequence 1 none 0 with
  | none =>
    rw [hfm] at hexec
    exact absurd hexec (by simp)
  | some pair =>
    obtain ⟨fm, tasks⟩ := pair
    rw [hfm] at hexec
    obtain rfl := Option.some.inj hexec
    obtain ⟨hfree, hfree', htasks, hrest, hother⟩ := FutexManager.wake_spec hfm
    refine ⟨hfree, ?_, fm, tasks, rfl, htasks⟩
    refine h.release (by simp [hctl]) ?_ hrest hfree ?_
    · rw [htasks, append_nil, take_append_drop]
    · have hmoved : LockOk A.mutex ⟨s.base.mutex.ivVal, fm, s.base.tasks⟩ := by
        refine h.lock.move (.other fm (hother A.mutex (Ne.symm A.ne)) fun t' hcompared => ?_)
        have hno := h.lock.listed.locked t' hcompared
        exact absurd (hno.symm.trans hfree) (by simp)
      cases hlist : s.base.futexes.waiters A.sequence with
      | nil =>
        have hnil : tasks = [] := by rw [htasks, hlist]; rfl
        subst hnil
        simpa [Plain.State.word, State.release, State.setCtl] using hmoved
      | cons x rest =>
        have hx : tasks = [x] := by rw [htasks, hlist]; rfl
        subst hx
        have hout : s.base.tasks x = .out :=
          h.out_of_sleeping ((h.mem x).mp (by rw [hlist]; exact mem_cons_self))
        have hstart := hmoved.move (.contend x .exchanging hout (Or.inl rfl))
        have hupdate : (fun t => if t ∈ [x] then Phase.exchanging
            else if t ∈ ([] : List Nat) then .asleep else s.base.tasks t)
              = update s.base.tasks x .exchanging := by
          funext t'
          by_cases heq : t' = x
          · simp [heq]
          · simp [heq]
        show LockOk A.mutex ⟨s.base.mutex.ivVal, fm, fun t => if t ∈ [x] then Phase.exchanging
            else if t ∈ ([] : List Nat) then .asleep else s.base.tasks t⟩
        rw [hupdate]
        exact hstart

/-- The requeue of a broadcast: no task is left asleep on the sequence number. -/
theorem CondOk.broadcast_cases {m : Nat} (h : CondOk A s) (hctl : s.ctl t = .broadcasting m)
    (hexec : s.condWake A t = some s') :
    s.base.futexes.ivLock = none ∧ CondOk A s' ∧
      ∃ fm tasks moved, s' = (s.setCtl t .idle).release fm tasks moved ∧
        tasks ++ moved = s.base.futexes.waiters A.sequence := by
  have hm : m = A.mutex := by
    have hok := h.task t
    unfold TaskOk at hok
    rw [hctl] at hok
    exact hok.2
  subst hm
  unfold State.condWake at hexec
  simp only [hctl] at hexec
  cases hfm : s.base.futexes.wake A.sequence 1 (some A.mutex) (2 ^ 64 - 1) with
  | none =>
    rw [hfm] at hexec
    exact absurd hexec (by simp)
  | some pair =>
    obtain ⟨fm, tasks⟩ := pair
    rw [hfm] at hexec
    obtain rfl := Option.some.inj hexec
    obtain ⟨hfree, hfree', hnone, hcase⟩ :=
      FutexManager.requeue_cases (Ne.symm A.ne) (by have := h.length_le; omega) hfm
    refine ⟨hfree, ?_⟩
    rcases hcase with ⟨hlist, rfl, hmutex⟩ | ⟨x, rest, hlist, rfl, hmutex⟩
    · have hmoved : (s.base.futexes.waiters A.sequence).filter (· ∈ fm.waiters A.mutex) = [] := by
        rw [hlist]
        rfl
      rw [hmoved]
      refine ⟨?_, fm, [], [], rfl, hlist.symm⟩
      refine h.release (by simp [hctl]) ?_ hnone hfree ?_
      · simpa using hlist
      have hmove : LockOk A.mutex ⟨s.base.mutex.ivVal, fm, s.base.tasks⟩ := by
        refine h.lock.move (.other fm hmutex fun t' hcompared => ?_)
        have hno := h.lock.listed.locked t' hcompared
        exact absurd (hno.symm.trans hfree) (by simp)
      simpa [Plain.State.word, State.release, State.setCtl] using hmove
    · have hnodup := h.nodup
      rw [hlist] at hnodup
      have hout : ∀ t' ∈ x :: rest, s.base.tasks t' = .out := by
        intro t' ht'
        exact h.out_of_sleeping ((h.mem t').mp (by rw [hlist]; exact ht'))
      have hmoved : (s.base.futexes.waiters A.sequence).filter (· ∈ fm.waiters A.mutex)
          = rest := by
        have hx : x ∉ fm.waiters A.mutex := by
          rw [hmutex, mem_append, mem_reverse, not_or]
          refine ⟨(nodup_cons.mp hnodup).1, fun hmem => ?_⟩
          have hasleep : s.base.tasks x = .asleep := (h.lock.listed.mem x).mp hmem
          exact absurd (hasleep.symm.trans (hout x mem_cons_self)) (by simp)
        rw [hlist, filter_cons_of_neg (by simpa using hx), filter_eq_self]
        intro t' ht'
        simp [hmutex, ht']
      rw [hmoved]
      refine ⟨?_, fm, [x], rest, rfl, hlist.symm⟩
      refine h.release (by simp [hctl]) ?_ hnone hfree ?_
      · simpa using hlist
      have hrequeue := h.lock.requeue hout hnodup hmutex hfree
      simpa [Plain.State.word, State.release, State.setCtl] using hrequeue

theorem CondOk.condWake (h : CondOk A s)
    (hctl : s.ctl t = .signalling ∨ ∃ m, s.ctl t = .broadcasting m)
    (hexec : s.condWake A t = some s') : CondOk A s' := by
  rcases hctl with hsignal | ⟨m, hbroadcast⟩
  · exact (h.signal_cases hsignal hexec).2.1
  · exact (h.broadcast_cases hbroadcast hexec).2.1

end Steps

theorem CondOk.step {A : Addrs} {s s' : State} {op : Op} (h : CondOk A s)
    (hstep : FineStep A s op s') : CondOk A s' := by
  obtain ⟨⟨hallowed, hexec⟩, hfine⟩ := hstep
  cases op with
  | mutex op =>
    obtain ⟨b, hb, rfl⟩ := Option.map_eq_some_iff.mp hexec
    exact h.mutex hallowed.2 ⟨hallowed.1, hb⟩
  | condWait t =>
    obtain rfl := Option.some.inj hexec
    exact h.syncCondWait hallowed.1 hallowed.2.1 hallowed.2.2
  | associate t => exact h.associate hexec
  | pause t => exact h.pause hallowed.1 hexec
  | settle t =>
    obtain rfl := Option.some.inj hexec
    exact h.settle hallowed
  | signal t =>
    obtain rfl := Option.some.inj hexec
    exact h.syncCondSignal hallowed.1 hallowed.2 hfine
  | broadcast t =>
    obtain rfl := Option.some.inj hexec
    exact h.syncCondBroadcast hallowed.1 hallowed.2 hfine
  | condWake t => exact h.condWake hallowed hexec

theorem CondOk.init {A : Addrs} {futexes : FutexManager} (hmutex : futexes.waiters A.mutex = [])
    (hsequence : futexes.waiters A.sequence = []) : CondOk A (State.init futexes) := by
  refine ⟨LockOk.free rfl hmutex fun _ => rfl, fun t => trivial, fun t => ?_, ?_, Or.inl rfl, ?_⟩
  · show t ∈ futexes.waiters A.sequence ↔ Ctl.idle = .sleeping
    simp [hsequence]
  · show (futexes.waiters A.sequence).Nodup
    simp [hsequence]
  · show 0 < 2 ^ 64
    norm_num

theorem CondOk.run {A : Addrs} {s s' : State} {ops : List Op} (h : CondOk A s)
    (hrun : Run (FineStep A) s ops s') : CondOk A s' :=
  hrun.invariant h fun _ _ _ hok hstep => hok.step hstep

end Hostboot.Sync.Cond
