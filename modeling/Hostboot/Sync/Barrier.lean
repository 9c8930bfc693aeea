import Mathlib
import Hostboot.Sync.Mutex

/-!
# Barriers

`barrier_init` and `barrier_wait` of `src/lib/sync.C`.  The steps of the mutex are those of
`Hostboot.Sync.Mutex`; `Ctl` says where a task is in `barrier_wait`.

While a task holds the mutex nobody else uses the fields of the barrier, except that
waiting tasks compare and load `iv_event`.  So the decrement, the test, and the load or the
increment of `iv_event` are one step, `arrive`, and the wake of the last task is another.

The counts of calls entered, of decrements and of calls returned from are not in the
source.  In the invariant `R` is the number of completed rounds.  Every task
has made `R` or `R + 1` decrements, so the event number a task has loaded is the current
one or the one before, and the wrap of `iv_event` does no harm.
-/

namespace Hostboot.Sync.Barrier

open Hostboot.Lib Phase
open Function (update update_of_ne update_self)

/-- The addresses of the two futexes, and the tasks that use the barrier. -/
structure Params where
  /-- `iv_val` of the mutex. -/
  mutex : Nat
  /-- `iv_event`. -/
  event : Nat
  tasks : Finset Nat
  ne : event ≠ mutex
  card_lt : tasks.card < 2 ^ 64

/-- Where a task is in `barrier_wait`.  The number is `l_event`. -/
inductive Ctl where
  | idle
  /-- In `mutex_lock`, or after it and before the decrement. -/
  | entering
  /-- In `mutex_unlock`, or after it and before `futex_wait`. -/
  | unlocking (event : Nat)
  /-- In `futex_wait`, after the comparison. -/
  | settling (event : Nat)
  | sleeping (event : Nat)
  /-- Before the test of the loop. -/
  | checking (event : Nat)
  /-- The last task of the round, before `futex_wake`. -/
  | waking
  /-- The last task of the round, in `mutex_unlock` or after it. -/
  | leaving
  deriving DecidableEq, Repr

/-- A sleeping task that is started goes on with the test of the loop. -/
def Ctl.resume : Ctl → Ctl
  | .sleeping event => .checking event
  | c => c

/-- The mutex with its tasks, the barrier, and the code of the tasks. -/
structure State where
  base : Plain.State
  ivEvent : Nat
  ivMissing : Nat
  ivCount : Nat
  ctl : Nat → Ctl
  entered : Nat → Nat
  arrived : Nat → Nat
  returned : Nat → Nat

namespace State

def setCtl (s : State) (t : Nat) (c : Ctl) : State := { s with ctl := update s.ctl t c }

/-- `barrier_init`. -/
def barrierInit (futexes : FutexManager) (count : Nat) : State where
  base := Plain.State.init futexes
  ivEvent := 0
  ivMissing := count
  ivCount := count
  ctl := fun _ => .idle
  entered := fun _ => 0
  arrived := fun _ => 0
  returned := fun _ => 0

/-- The call of `barrier_wait`. -/
def barrierWait (s : State) (t : Nat) : State :=
  { s.setCtl t .entering with entered := update s.entered t (s.entered t + 1) }

/-- The decrement and what follows, up to `mutex_unlock` or `futex_wake`. -/
def arrive (s : State) (t : Nat) : State :=
  let missing := sub64 s.ivMissing 1
  let s := { s with arrived := update s.arrived t (s.arrived t + 1) }
  if missing > 0 then { s.setCtl t (.unlocking s.ivEvent) with ivMissing := missing }
  else { s.setCtl t .waking with ivEvent := add64 s.ivEvent 1, ivMissing := s.ivCount }

/-- `futex_wake` of all tasks. -/
def wakeAll (A : Params) (s : State) (t : Nat) : Option State :=
  match s.base.futexes.wake A.event (2 ^ 64 - 1) none 0 with
  | none => none
  | some (futexes, tasks) =>
    some
      { s with
        base := { s.base with futexes := futexes }
        ctl := fun t' =>
          if t' ∈ tasks then (s.ctl t').resume else update s.ctl t .leaving t' }

/-- `futex_wait` up to the comparison. -/
def pause (s : State) (t : Nat) : Option State :=
  match s.ctl t with
  | .unlocking event =>
    match s.base.futexes.waitCompare t s.ivEvent event with
    | none => none
    | some (futexes, true) =>
      some { s.setCtl t (.settling event) with base := { s.base with futexes := futexes } }
    | some (_, false) => some (s.setCtl t (.checking event))
  | _ => none

/-- The rest of `futex_wait` for a task that sleeps. -/
def settle (A : Params) (s : State) (t : Nat) : Option State :=
  match s.ctl t with
  | .settling event =>
    some
      { s.setCtl t (.sleeping event) with
        base := { s.base with futexes := s.base.futexes.waitInsert t A.event } }
  | _ => none

/-- The return from `barrier_wait`. -/
def leave (s : State) (t : Nat) : State :=
  { s.setCtl t .idle with returned := update s.returned t (s.returned t + 1) }

/-- The test of the loop. -/
def check (s : State) (t : Nat) : Option State :=
  match s.ctl t with
  | .checking event =>
    if s.ivEvent = event then some (s.setCtl t (.unlocking event)) else some (s.leave t)
  | _ => none

end State

/-- The steps of the tasks. -/
inductive Op where
  /-- A step of the mutex, or of the futex manager for another futex. -/
  | mutex (op : Plain.Op)
  | barrierWait (t : Nat)
  | arrive (t : Nat)
  | wakeAll (t : Nat)
  | pause (t : Nat)
  | settle (t : Nat)
  | check (t : Nat)
  | leave (t : Nat)
  deriving DecidableEq, Repr

/-- When `barrier_wait` takes a step of the mutex. -/
def MutexAllowed (A : Params) (s : State) : Plain.Op → Prop
  | .lock t => s.ctl t = .entering
  | .unlock t => s.ctl t = .leaving ∨ ∃ event, s.ctl t = .unlocking event
  | .other futexes => futexes.waiters A.event = s.base.futexes.waiters A.event ∧
      ∀ t event, s.ctl t = .settling event → futexes.ivLock = s.base.futexes.ivLock
  | _ => True

/-- The task is where it takes the step. -/
def Op.Allowed (A : Params) (s : State) : Op → Prop
  | .mutex op => op.Allowed A.mutex s.base ∧ MutexAllowed A s op
  | .barrierWait t => t ∈ A.tasks ∧ s.ctl t = .idle
  | .arrive t => s.ctl t = .entering ∧ s.base.tasks t = .held
  | .wakeAll t => s.ctl t = .waking
  | .pause t => s.base.tasks t = .out ∧ ∃ event, s.ctl t = .unlocking event
  | .settle t => ∃ event, s.ctl t = .settling event
  | .check t => ∃ event, s.ctl t = .checking event
  | .leave t => s.base.tasks t = .out ∧ s.ctl t = .leaving

/-- One step. -/
def State.exec (A : Params) (s : State) : Op → Option State
  | .mutex op => (s.base.exec A.mutex op).map fun base => { s with base := base }
  | .barrierWait t => some (s.barrierWait t)
  | .arrive t => some (s.arrive t)
  | .wakeAll t => s.wakeAll A t
  | .pause t => s.pause t
  | .settle t => s.settle A t
  | .check t => s.check t
  | .leave t => some (s.leave t)

/-- An allowed step with a result. -/
def Step (A : Params) (s : State) (op : Op) (s' : State) : Prop :=
  op.Allowed A s ∧ s.exec A op = some s'

/-! ## The invariant -/

/-- What the mutex and the futexes are for a task at a place of the code. -/
def PlaceOk (s : State) (t : Nat) : Prop :=
  match s.ctl t with
  | .entering => True
  | .unlocking _ | .leaving => s.base.tasks t = .held ∨ s.base.tasks t = .releasing ∨
      s.base.tasks t = .waking ∨ s.base.tasks t = .out
  | .settling _ => s.base.tasks t = .out ∧ s.base.futexes.ivLock = some t
  | .idle | .sleeping _ | .checking _ => s.base.tasks t = .out
  | .waking => s.base.tasks t = .held

/-- The part of the invariant about the mutex and the sleeping tasks. -/
structure Parked (A : Params) (s : State) : Prop where
  lock : LockOk A.mutex s.base.word
  place : ∀ t, PlaceOk s t
  mem : ∀ t, t ∈ s.base.futexes.waiters A.event ↔ ∃ event, s.ctl t = .sleeping event
  nodup : (s.base.futexes.waiters A.event).Nodup

/-- The calls of a task when `R` rounds are complete. -/
def CallsOk (A : Params) (R : Nat) (s : State) (t : Nat) : Prop :=
  match s.ctl t with
  | .idle => s.entered t = s.arrived t ∧ s.returned t = s.arrived t ∧
      (t ∈ A.tasks → s.arrived t = R)
  | .entering => s.entered t = s.arrived t + 1 ∧ s.returned t = s.arrived t ∧ s.arrived t = R
  | .unlocking event | .settling event | .sleeping event | .checking event =>
    s.entered t = s.arrived t ∧ s.returned t + 1 = s.arrived t ∧
      (s.arrived t = R ∨ s.arrived t = R + 1) ∧ event = s.returned t % 2 ^ 64
  | .waking | .leaving =>
    s.entered t = s.arrived t ∧ s.returned t + 1 = s.arrived t ∧ s.arrived t = R

/-- The task sleeps on the event, or is about to. -/
def Drowsy (s : State) (t : Nat) : Prop :=
  ∃ event, s.ctl t = .settling event ∨ s.ctl t = .sleeping event

/-- The tasks that have arrived in the round after the first `R`. -/
def present (A : Params) (R : Nat) (s : State) : Finset Nat :=
  A.tasks.filter fun t => s.arrived t = R + 1

/-- The part of the invariant about the rounds: `R` of them are complete. -/
structure Rounds (A : Params) (R : Nat) (s : State) : Prop where
  member : ∀ t, s.ctl t ≠ .idle → t ∈ A.tasks
  calls : ∀ t, CallsOk A R s t
  event : s.ivEvent = R % 2 ^ 64
  count : s.ivCount = A.tasks.card
  missing : s.ivMissing + (present A R s).card = A.tasks.card
  pending : A.tasks.Nonempty → 0 < s.ivMissing
  wake : ∀ t, Drowsy s t → s.arrived t = R → ∃ t', s.ctl t' = .waking

/-! ## Steps of the mutex -/

section Mutex

variable {A : Params} {s : State} {op : Plain.Op} {b : Plain.State} {t R : Nat}

theorem MutexAllowed.ne_lock (h : MutexAllowed A s op) (hctl : s.ctl t ≠ .entering) :
    op ≠ .lock t := by
  rintro rfl
  exact hctl h

/-- The last task of a round does not unlock the mutex before its wake. -/
theorem MutexAllowed.ne_unlock (h : MutexAllowed A s op) (hctl : s.ctl t = .waking) :
    op ≠ .unlock t := by
  rintro rfl
  rcases h with hno | ⟨event, hno⟩
  · exact absurd (hctl.symm.trans hno) (by simp)
  · exact absurd (hctl.symm.trans hno) (by simp)

theorem Parked.mutex (h : Parked A s) (hallowed : MutexAllowed A s op)
    (hstep : Plain.Step A.mutex s.base op b) : Parked A { s with base := b } := by
  have hwaiters : b.futexes.waiters A.event = s.base.futexes.waiters A.event := by
    by_cases hother : ∃ futexes, op = .other futexes
    · obtain ⟨futexes, rfl⟩ := hother
      obtain rfl := Option.some.inj hstep.2
      exact hallowed.1
    · exact hstep.waiters_of_ne A.ne (not_exists.mp hother)
  have hlocked : ∀ t event, s.ctl t = .settling event → s.base.tasks t = .out →
      s.base.futexes.ivLock = some t → b.futexes.ivLock = some t := by
    intro t event hctl hout hsome
    by_cases hother : ∃ futexes, op = .other futexes
    · obtain ⟨futexes, rfl⟩ := hother
      obtain rfl := Option.some.inj hstep.2
      exact (hallowed.2 t event hctl).trans hsome
    · exact hstep.ivLock_of_some h.lock hsome (by simp [hout]) (not_exists.mp hother)
  refine ⟨h.lock.move hstep.move, fun t => ?_, ?_, ?_⟩
  · have hplace := h.place t
    unfold PlaceOk at hplace ⊢
    dsimp only
    cases hctl : s.ctl t with
    | entering => trivial
    | unlocking event | leaving =>
      rw [hctl] at hplace
      exact hstep.leaving_of_ne h.lock hplace (hallowed.ne_lock (by simp [hctl]))
    | settling event =>
      rw [hctl] at hplace
      refine ⟨hstep.out_of_ne h.lock hplace.1 (hallowed.ne_lock (by simp [hctl])), ?_⟩
      exact hlocked t event hctl hplace.1 hplace.2
    | idle | sleeping event | checking event =>
      rw [hctl] at hplace
      exact hstep.out_of_ne h.lock hplace (hallowed.ne_lock (by simp [hctl]))
    | waking =>
      rw [hctl] at hplace
      exact hstep.held_of_ne h.lock hplace (hallowed.ne_unlock hctl)
  · show ∀ t, t ∈ b.futexes.waiters A.event ↔ ∃ event, s.ctl t = .sleeping event
    rw [hwaiters]
    exact h.mem
  · show (b.futexes.waiters A.event).Nodup
    rw [hwaiters]
    exact h.nodup

theorem Rounds.mutex (h : Rounds A R s) : Rounds A R { s with base := b } :=
  ⟨h.member, h.calls, h.event, h.count, h.missing, h.pending, h.wake⟩

end Mutex

/-! ## Steps of the barrier: the sleeping tasks -/

section Parked

variable {A : Params} {s s' : State} {t : Nat}

theorem PlaceOk.congr (h : PlaceOk s t) (hctl : s'.ctl t = s.ctl t)
    (htasks : s'.base.tasks t = s.base.tasks t)
    (hlock : ∀ event, s.ctl t = .settling event →
      s'.base.futexes.ivLock = s.base.futexes.ivLock) : PlaceOk s' t := by
  unfold PlaceOk at h ⊢
  rw [hctl, htasks]
  cases hc : s.ctl t with
  | settling event =>
    rw [hc] at h
    rw [hlock event hc]
    exact h
  | _ =>
    rw [hc] at h
    exact h

theorem Parked.setCtl {c : Ctl} (h : Parked A s) (hold : ∀ event, s.ctl t ≠ .sleeping event)
    (hnew : ∀ event, c ≠ .sleeping event) (hbase : s'.base = s.base)
    (hctl : s'.ctl = update s.ctl t c) (hself : PlaceOk s' t) : Parked A s' := by
  refine ⟨by rw [hbase]; exact h.lock, fun t' => ?_, fun t' => ?_, by rw [hbase]; exact h.nodup⟩
  · by_cases heq : t' = t
    · rw [heq]
      exact hself
    · apply (h.place t').congr
      · rw [hctl, update_of_ne heq]
      · rw [hbase]
      · simp [hbase]
  · rw [hbase, h.mem, hctl]
    by_cases heq : t' = t
    · subst heq
      simp [hold, hnew]
    · rw [update_of_ne heq]

theorem Parked.barrierWait (h : Parked A s) (hctl : s.ctl t = .idle) :
    Parked A (s.barrierWait t) := by
  refine h.setCtl (t := t) (c := .entering) (by simp [hctl]) (by simp) rfl rfl ?_
  simp [PlaceOk, State.barrierWait, State.setCtl]

theorem Parked.arrive (h : Parked A s) (hctl : s.ctl t = .entering)
    (ht : s.base.tasks t = .held) : Parked A (s.arrive t) := by
  unfold State.arrive
  dsimp only
  split_ifs with hmissing
  · refine h.setCtl (t := t) (c := .unlocking s.ivEvent) (by simp [hctl]) (by simp) rfl rfl ?_
    simp only [PlaceOk, State.setCtl, update_self]
    exact Or.inl ht
  · refine h.setCtl (t := t) (c := .waking) (by simp [hctl]) (by simp) rfl rfl ?_
    simp only [PlaceOk, State.setCtl, update_self]
    exact ht

/-- With the lock of the futex manager free no task is between the comparison and the
insertion of `futex_wait`. -/
theorem Parked.not_settling (h : Parked A s) (hfree : s.base.futexes.ivLock = none) (t event : Nat) :
    s.ctl t ≠ .settling event := by
  intro hctl
  have hplace := h.place t
  unfold PlaceOk at hplace
  rw [hctl] at hplace
  exact absurd (hplace.2.symm.trans hfree) (by simp)

/-- The mutex does not notice what the futex manager does for the event. -/
theorem Parked.other {fm : FutexManager} (h : Parked A s)
    (hwaiters : fm.waiters A.mutex = s.base.futexes.waiters A.mutex)
    (hlock : ∀ t, s.base.futexes.ivLock = some t → s.base.tasks t = .out) :
    LockOk A.mutex ⟨s.base.mutex.ivVal, fm, s.base.tasks⟩ := by
  apply h.lock.move
  apply Move.other fm hwaiters
  intro t hcompared
  have hout := hlock t (h.lock.listed.locked t hcompared)
  exact absurd (hcompared.symm.trans hout) (by simp)

theorem Parked.pause (h : Parked A s) (ht : s.base.tasks t = .out)
    (hexec : s.pause t = some s') : Parked A s' := by
  unfold State.pause at hexec
  cases hctl : s.ctl t with
  | unlocking event =>
    simp only [hctl] at hexec
    cases hfm : s.base.futexes.waitCompare t s.ivEvent event with
    | none => simp [hfm] at hexec
    | some pair =>
      obtain ⟨fm, sleep⟩ := pair
      obtain ⟨hfree, ⟨-, rfl, rfl⟩ | ⟨-, rfl, rfl⟩⟩ := FutexManager.waitCompare_cases hfm
      · simp only [hfm] at hexec
        obtain rfl := Option.some.inj hexec
        refine h.setCtl (t := t) (c := .checking event) (by simp [hctl]) (by simp) rfl rfl ?_
        simp only [PlaceOk, State.setCtl, update_self]
        exact ht
      · simp only [hfm] at hexec
        obtain rfl := Option.some.inj hexec
        refine ⟨h.other rfl (by simp [hfree]), fun t' => ?_, fun t' => ?_, h.nodup⟩
        · by_cases heq : t' = t
          · subst heq
            simp only [PlaceOk, State.setCtl, update_self]
            exact ⟨ht, trivial⟩
          · apply (h.place t').congr
            · exact update_of_ne heq _ _
            · rfl
            · exact fun event' hno => absurd hno (h.not_settling hfree t' event')
        · show t' ∈ s.base.futexes.waiters A.event ↔
            ∃ e, update s.ctl t (.settling event) t' = .sleeping e
          rw [h.mem]
          by_cases heq : t' = t
          · subst heq
            simp [hctl]
          · rw [update_of_ne heq]
  | _ => simp [hctl] at hexec

theorem Parked.settle (h : Parked A s) (hexec : s.settle A t = some s') : Parked A s' := by
  unfold State.settle at hexec
  cases hctl : s.ctl t with
  | settling event =>
    simp only [hctl] at hexec
    obtain rfl := Option.some.inj hexec
    have hplace := h.place t
    unfold PlaceOk at hplace
    rw [hctl] at hplace
    obtain ⟨hout, hsome⟩ := hplace
    have howner : ∀ t', s.base.futexes.ivLock = some t' → t' = t := by
      intro t' ht'
      exact Option.some.inj (ht'.symm.trans hsome)
    have hlock := h.other (FutexManager.waiters_waitInsert_of_ne s.base.futexes t A.ne)
      (fun t' ht' => howner t' ht' ▸ hout)
    refine ⟨hlock, fun t' => ?_, fun t' => ?_, ?_⟩
    · by_cases heq : t' = t
      · subst heq
        simp only [PlaceOk, State.setCtl, update_self]
        exact hout
      · apply (h.place t').congr
        · exact update_of_ne heq _ _
        · rfl
        · intro event' hsettling
          have hplace := h.place t'
          unfold PlaceOk at hplace
          rw [hsettling] at hplace
          exact absurd (howner t' hplace.2) heq
    · simp only [State.setCtl]
      rw [FutexManager.waiters_waitInsert, List.mem_cons, h.mem]
      by_cases heq : t' = t
      · subst heq
        simp
      · simp [heq]
    · show ((s.base.futexes.waitInsert t A.event).waiters A.event).Nodup
      rw [FutexManager.waiters_waitInsert]
      apply List.nodup_cons.mpr
      refine ⟨fun hno => ?_, h.nodup⟩
      obtain ⟨event', hsleeping⟩ := (h.mem t).mp hno
      exact absurd (hctl.symm.trans hsleeping) (by simp)
  | _ => simp [hctl] at hexec

theorem Parked.leave (h : Parked A s) (ht : s.base.tasks t = .out)
    (hctl : ∀ event, s.ctl t ≠ .sleeping event) : Parked A (s.leave t) := by
  refine h.setCtl (t := t) (c := .idle) hctl (by simp) rfl rfl ?_
  simp only [PlaceOk, State.leave, State.setCtl, update_self]
  exact ht

theorem Parked.check (h : Parked A s) (hexec : s.check t = some s') : Parked A s' := by
  unfold State.check at hexec
  cases hctl : s.ctl t with
  | checking event =>
    simp only [hctl] at hexec
    have hplace := h.place t
    unfold PlaceOk at hplace
    rw [hctl] at hplace
    split_ifs at hexec
    · obtain rfl := Option.some.inj hexec
      refine h.setCtl (t := t) (c := .unlocking event) (by simp [hctl]) (by simp) rfl rfl ?_
      simp only [PlaceOk, State.setCtl, update_self]
      exact Or.inr (Or.inr (Or.inr hplace))
    · obtain rfl := Option.some.inj hexec
      exact h.leave hplace (by simp [hctl])
  | _ => simp [hctl] at hexec

end Parked

/-! ## Steps of the barrier: the rounds -/

section Rounds

variable {A : Params} {s s' : State} {t R : Nat}

theorem CallsOk.congr (h : CallsOk A R s t) (hctl : s'.ctl t = s.ctl t)
    (hentered : s'.entered t = s.entered t) (harrived : s'.arrived t = s.arrived t)
    (hreturned : s'.returned t = s.returned t) : CallsOk A R s' t := by
  unfold CallsOk at h ⊢
  rw [hctl, hentered, harrived, hreturned]
  exact h

theorem Rounds.setCtl {c : Ctl} (h : Rounds A R s) (hctl : s'.ctl = update s.ctl t c)
    (hentered : ∀ t', t' ≠ t → s'.entered t' = s.entered t') (harrived : s'.arrived = s.arrived)
    (hreturned : ∀ t', t' ≠ t → s'.returned t' = s.returned t')
    (hevent : s'.ivEvent = s.ivEvent) (hmissing : s'.ivMissing = s.ivMissing)
    (hcount : s'.ivCount = s.ivCount) (hmember : t ∈ A.tasks) (hnot : s.ctl t ≠ .waking)
    (hself : CallsOk A R s' t)
    (hdrowsy : (∃ event, c = .settling event ∨ c = .sleeping event) → s.arrived t = R →
      Drowsy s t) : Rounds A R s' := by
  have hne : ∀ t', t' ≠ t → s'.ctl t' = s.ctl t' := by
    intro t' heq
    rw [hctl, update_of_ne heq]
  refine ⟨fun t' ht' => ?_, fun t' => ?_, by rw [hevent]; exact h.event,
    by rw [hcount]; exact h.count, ?_, by rw [hmissing]; exact h.pending, fun t' ht' hR => ?_⟩
  · by_cases heq : t' = t
    · rw [heq]
      exact hmember
    · rw [hne t' heq] at ht'
      exact h.member t' ht'
  · by_cases heq : t' = t
    · rw [heq]
      exact hself
    · exact (h.calls t').congr (hne t' heq) (hentered t' heq) (by rw [harrived]) (hreturned t' heq)
  · unfold present
    rw [hmissing, harrived]
    exact h.missing
  · rw [harrived] at hR
    have hold : Drowsy s t' := by
      by_cases heq : t' = t
      · subst heq
        unfold Drowsy at ht'
        rw [hctl, update_self] at ht'
        exact hdrowsy ht' hR
      · unfold Drowsy at ht' ⊢
        rw [hne t' heq] at ht'
        exact ht'
    obtain ⟨t'', hwaking⟩ := h.wake t' hold hR
    refine ⟨t'', ?_⟩
    rw [hne t'' ?_, hwaking]
    rintro rfl
    exact hnot hwaking

theorem Rounds.barrierWait (h : Rounds A R s) (ht : t ∈ A.tasks) (hctl : s.ctl t = .idle) :
    Rounds A R (s.barrierWait t) := by
  have hcalls := h.calls t
  unfold CallsOk at hcalls
  rw [hctl] at hcalls
  obtain ⟨hentered, hreturned, hR⟩ := hcalls
  refine h.setCtl (t := t) (c := .entering) rfl ?_ rfl (fun _ _ => rfl) rfl rfl rfl ht
    (by simp [hctl]) ?_ (by simp)
  · intro t' heq
    exact update_of_ne heq _ _
  · simp only [CallsOk, State.barrierWait, State.setCtl, update_self]
    exact ⟨by rw [hentered], hreturned, hR ht⟩

theorem Rounds.pause (h : Rounds A R s) (hexec : s.pause t = some s') : Rounds A R s' := by
  have hcalls := h.calls t
  unfold State.pause at hexec
  unfold CallsOk at hcalls
  cases hctl : s.ctl t with
  | unlocking event =>
    rw [hctl] at hcalls
    simp only [hctl] at hexec
    have hmember : t ∈ A.tasks := h.member t (by simp [hctl])
    cases hfm : s.base.futexes.waitCompare t s.ivEvent event with
    | none => simp [hfm] at hexec
    | some pair =>
      obtain ⟨fm, sleep⟩ := pair
      obtain ⟨-, ⟨-, rfl, rfl⟩ | ⟨hval, rfl, rfl⟩⟩ := FutexManager.waitCompare_cases hfm
      · simp only [hfm] at hexec
        obtain rfl := Option.some.inj hexec
        refine h.setCtl (t := t) (c := .checking event) rfl (fun _ _ => rfl) rfl (fun _ _ => rfl)
          rfl rfl rfl hmember (by simp [hctl]) ?_ (by simp)
        simp only [CallsOk, State.setCtl, update_self]
        exact hcalls
      · simp only [hfm] at hexec
        obtain rfl := Option.some.inj hexec
        refine h.setCtl (t := t) (c := .settling event) rfl (fun _ _ => rfl) rfl (fun _ _ => rfl)
          rfl rfl rfl hmember (by simp [hctl]) ?_ (fun _ hR => ?_)
        · simp only [CallsOk, State.setCtl, update_self]
          exact hcalls
        · -- The comparison was with the event number of an older round.
          have hevent := h.event
          obtain ⟨-, hreturned, -, heq⟩ := hcalls
          omega
  | _ => simp [hctl] at hexec

theorem Rounds.settle (h : Rounds A R s) (hexec : s.settle A t = some s') : Rounds A R s' := by
  have hcalls := h.calls t
  unfold State.settle at hexec
  unfold CallsOk at hcalls
  cases hctl : s.ctl t with
  | settling event =>
    rw [hctl] at hcalls
    simp only [hctl] at hexec
    obtain rfl := Option.some.inj hexec
    refine h.setCtl (t := t) (c := .sleeping event) rfl (fun _ _ => rfl) rfl (fun _ _ => rfl)
      rfl rfl rfl (h.member t (by simp [hctl])) (by simp [hctl]) ?_ ?_
    · simp only [CallsOk, State.setCtl, update_self]
      exact hcalls
    · exact fun _ _ => ⟨event, Or.inl hctl⟩
  | _ => simp [hctl] at hexec

theorem Rounds.leave (h : Rounds A R s) (hmember : t ∈ A.tasks) (hnot : s.ctl t ≠ .waking)
    (hentered : s.entered t = s.arrived t) (hreturned : s.returned t + 1 = s.arrived t)
    (harrived : s.arrived t = R) : Rounds A R (s.leave t) := by
  refine h.setCtl (t := t) (c := .idle) rfl (fun _ _ => rfl) rfl ?_ rfl rfl rfl hmember hnot ?_
    (by simp)
  · intro t' heq
    exact update_of_ne heq _ _
  · simp only [CallsOk, State.leave, State.setCtl, update_self]
    exact ⟨hentered, hreturned, fun _ => harrived⟩

theorem Rounds.check (h : Rounds A R s) (hexec : s.check t = some s') : Rounds A R s' := by
  have hcalls := h.calls t
  unfold State.check at hexec
  unfold CallsOk at hcalls
  cases hctl : s.ctl t with
  | checking event =>
    rw [hctl] at hcalls
    simp only [hctl] at hexec
    have hmember : t ∈ A.tasks := h.member t (by simp [hctl])
    split_ifs at hexec with hevent
    · obtain rfl := Option.some.inj hexec
      refine h.setCtl (t := t) (c := .unlocking event) rfl (fun _ _ => rfl) rfl (fun _ _ => rfl)
        rfl rfl rfl hmember (by simp [hctl]) ?_ (by simp)
      simp only [CallsOk, State.setCtl, update_self]
      exact hcalls
    · -- The event number has changed, so the round of the task is complete.
      obtain rfl := Option.some.inj hexec
      obtain ⟨hentered, hreturned, hR, heq⟩ := hcalls
      have hcurrent := h.event
      apply h.leave hmember (by simp [hctl]) hentered hreturned
      rcases hR with hR | hR
      · exact hR
      · have hsame : s.returned t = R := by omega
        rw [hsame] at heq
        exact absurd (hcurrent.trans heq.symm) hevent
  | _ => simp [hctl] at hexec

theorem card_present_update (hs : s'.arrived = update s.arrived t (s.arrived t + 1))
    (ht : t ∈ A.tasks) (hR : s.arrived t = R) :
    (present A R s').card = (present A R s).card + 1 := by
  have hinsert : present A R s' = insert t (present A R s) := by
    unfold present
    rw [hs]
    ext t'
    by_cases heq : t' = t
    · subst heq
      simp [ht, hR]
    · simp [heq]
  rw [hinsert, Finset.card_insert_of_notMem]
  simp [present, hR]

/-- Nobody is present in the round after one that all tasks have arrived in. -/
theorem present_succ (hs : ∀ t ∈ A.tasks, s'.arrived t = R + 1) : present A (R + 1) s' = ∅ := by
  apply Finset.filter_eq_empty_iff.mpr
  intro t ht
  have hnow := hs t ht
  omega

theorem Rounds.all_arrived (h : Rounds A R s) (ht : t ∈ A.tasks) (hR : s.arrived t = R)
    (hmissing : s.ivMissing = 1) : ∀ t' ∈ A.tasks, t' ≠ t → s.arrived t' = R + 1 := by
  have hsubset : present A R s ⊆ A.tasks.erase t := by
    intro t' ht'
    have hmem := Finset.mem_filter.mp ht'
    apply Finset.mem_erase.mpr
    refine ⟨?_, hmem.1⟩
    rintro rfl
    omega
  have hcard := h.missing
  have hpos : 0 < A.tasks.card := Finset.card_pos.mpr ⟨t, ht⟩
  have heq : present A R s = A.tasks.erase t := by
    apply Finset.eq_of_subset_of_card_le hsubset
    rw [Finset.card_erase_of_mem ht]
    omega
  intro t' ht' hne
  have hmem : t' ∈ present A R s := by
    rw [heq]
    exact Finset.mem_erase.mpr ⟨hne, ht'⟩
  exact (Finset.mem_filter.mp hmem).2

theorem Rounds.missing_lt (h : Rounds A R s) : s.ivMissing < 2 ^ 64 := by
  have hmissing := h.missing
  have hlt := A.card_lt
  omega

theorem Rounds.arrive_wait (h : Rounds A R s) (hctl : s.ctl t = .entering)
    (hmissing : 1 < s.ivMissing) : Rounds A R (s.arrive t) := by
  have hmember : t ∈ A.tasks := h.member t (by simp [hctl])
  have hcalls := h.calls t
  unfold CallsOk at hcalls
  rw [hctl] at hcalls
  obtain ⟨hentered, hreturned, hR⟩ := hcalls
  have hsub : sub64 s.ivMissing 1 = s.ivMissing - 1 := sub64_of_le (by omega) h.missing_lt
  unfold State.arrive
  dsimp only
  rw [if_pos (by omega), hsub]
  refine ⟨fun t' ht' => ?_, fun t' => ?_, h.event, h.count, ?_, fun _ => ?_, fun t' ht' hR' => ?_⟩
  · by_cases heq : t' = t
    · rw [heq]
      exact hmember
    · simp only [State.setCtl, update_of_ne heq] at ht'
      exact h.member t' ht'
  · by_cases heq : t' = t
    · subst heq
      simp only [CallsOk, State.setCtl, update_self]
      exact ⟨hentered, by rw [hreturned], Or.inr (by rw [hR]), by rw [hreturned, hR]; exact h.event⟩
    · apply (h.calls t').congr
      · exact update_of_ne heq _ _
      · rfl
      · exact update_of_ne heq _ _
      · rfl
  · rw [card_present_update rfl hmember hR]
    have hold := h.missing
    show s.ivMissing - 1 + ((present A R s).card + 1) = A.tasks.card
    omega
  · show 0 < s.ivMissing - 1
    omega
  · by_cases heq : t' = t
    · subst heq
      simp [Drowsy, State.setCtl] at ht'
    · simp only [Drowsy, State.setCtl, update_of_ne heq] at ht' hR'
      obtain ⟨t'', hwaking⟩ := h.wake t' ht' hR'
      refine ⟨t'', ?_⟩
      have hne : t'' ≠ t := by
        rintro rfl
        exact absurd (hctl.symm.trans hwaking) (by simp)
      simp only [State.setCtl, update_of_ne hne]
      exact hwaking

theorem Rounds.arrive_last (h : Rounds A R s) (hctl : s.ctl t = .entering)
    (hmissing : s.ivMissing = 1) : Rounds A (R + 1) (s.arrive t) := by
  have hmember : t ∈ A.tasks := h.member t (by simp [hctl])
  have hcalls := h.calls t
  unfold CallsOk at hcalls
  rw [hctl] at hcalls
  obtain ⟨hentered, hreturned, hR⟩ := hcalls
  have hothers := h.all_arrived hmember hR hmissing
  have hsub : sub64 s.ivMissing 1 = 0 := by
    rw [hmissing]
    exact sub64_of_le (Nat.le_refl 1) (by norm_num)
  unfold State.arrive
  dsimp only
  rw [if_neg (by omega)]
  have harrived : ∀ t' ∈ A.tasks,
      update s.arrived t (s.arrived t + 1) t' = R + 1 := by
    intro t' ht'
    by_cases heq : t' = t
    · rw [heq, update_self, hR]
    · rw [update_of_ne heq]
      exact hothers t' ht' heq
  refine ⟨fun t' ht' => ?_, fun t' => ?_, ?_, h.count, ?_, fun _ => ?_, fun t' _ _ => ?_⟩
  · by_cases heq : t' = t
    · rw [heq]
      exact hmember
    · simp only [State.setCtl, update_of_ne heq] at ht'
      exact h.member t' ht'
  · by_cases heq : t' = t
    · subst heq
      simp only [CallsOk, State.setCtl, update_self]
      exact ⟨hentered, by rw [hreturned], by rw [hR]⟩
    · -- Every other task of the barrier waits in the round that is complete now.
      have hold := h.calls t'
      have hmem := h.member t'
      have hnow := fun ht' => hothers t' ht' heq
      unfold CallsOk at hold ⊢
      simp only [State.setCtl, update_of_ne heq]
      cases hc : s.ctl t' with
      | idle =>
        rw [hc] at hold
        refine ⟨hold.1, hold.2.1, fun ht' => ?_⟩
        have hR' := hold.2.2 ht'
        have hnow' := hnow ht'
        omega
      | entering =>
        rw [hc] at hold
        have hnow' := hnow (hmem (by simp [hc]))
        exact absurd (hold.2.2.symm.trans hnow') (by omega)
      | unlocking event | settling event | sleeping event | checking event =>
        rw [hc] at hold
        exact ⟨hold.1, hold.2.1, Or.inl (hnow (hmem (by simp [hc]))), hold.2.2.2⟩
      | waking | leaving =>
        rw [hc] at hold
        have hnow' := hnow (hmem (by simp [hc]))
        exact absurd (hold.2.2.symm.trans hnow') (by omega)
  · show add64 s.ivEvent 1 = (R + 1) % 2 ^ 64
    rw [h.event, add64, Nat.mod_add_mod]
  · rw [present_succ harrived, Finset.card_empty]
    exact h.count
  · show 0 < s.ivCount
    rw [h.count]
    exact Finset.card_pos.mpr ⟨t, hmember⟩
  · exact ⟨t, update_self _ _ _⟩

theorem Rounds.arrive (h : Rounds A R s) (hctl : s.ctl t = .entering) :
    ∃ R', Rounds A R' (s.arrive t) := by
  have hpos := h.pending ⟨t, h.member t (by simp [hctl])⟩
  by_cases hmissing : s.ivMissing = 1
  · exact ⟨R + 1, h.arrive_last hctl hmissing⟩
  · exact ⟨R, h.arrive_wait hctl (by omega)⟩

end Rounds

/-! ## The wake -/

/-- The invariant of the barrier. -/
structure BarrierOk (A : Params) (s : State) : Prop where
  parked : Parked A s
  rounds : ∃ R, Rounds A R s

section Wake

variable {A : Params} {s s' : State} {t R : Nat}

theorem Parked.length_le (h : Parked A s) (hr : Rounds A R s) :
    (s.base.futexes.waiters A.event).length ≤ 2 ^ 64 - 1 := by
  have hsubset : (s.base.futexes.waiters A.event).toFinset ⊆ A.tasks := by
    intro t ht
    obtain ⟨event, hctl⟩ := (h.mem t).mp (List.mem_toFinset.mp ht)
    exact hr.member t (by simp [hctl])
  have hle := Finset.card_le_card hsubset
  rw [List.toFinset_card_of_nodup h.nodup] at hle
  have hlt := A.card_lt
  omega

theorem Parked.wakeAll_cases (h : Parked A s) (hr : Rounds A R s) (ht : s.ctl t = .waking)
    (hexec : s.wakeAll A t = some s') :
    s.base.futexes.ivLock = none ∧ ∃ fm ctl, fm.waiters A.event = [] ∧
      fm.waiters A.mutex = s.base.futexes.waiters A.mutex ∧ ctl t = .leaving ∧
      (∀ t', t' ≠ t → ctl t' = (s.ctl t').resume) ∧
      s' = { s with base := { s.base with futexes := fm }, ctl := ctl } := by
  unfold State.wakeAll at hexec
  cases hfm : s.base.futexes.wake A.event (2 ^ 64 - 1) none 0 with
  | none =>
    rw [hfm] at hexec
    exact absurd hexec (by simp)
  | some pair =>
    obtain ⟨fm, tasks⟩ := pair
    rw [hfm] at hexec
    obtain rfl := Option.some.inj hexec
    obtain ⟨hfree, -, htasks, hrest, hother⟩ := FutexManager.wake_spec hfm
    rw [List.take_of_length_le (h.length_le hr)] at htasks
    rw [List.drop_of_length_le (h.length_le hr)] at hrest
    subst htasks
    refine ⟨hfree, fm, _, hrest, hother A.mutex (Ne.symm A.ne), ?_, fun t' hne => ?_, rfl⟩
    · have hno : t ∉ s.base.futexes.waiters A.event := by
        rw [h.mem]
        simp [ht]
      rw [if_neg hno, update_self]
    · split_ifs with hmem
      · rfl
      · rw [h.mem, not_exists] at hmem
        rw [update_of_ne hne]
        cases hc : s.ctl t' with
        | sleeping event => exact absurd hc (hmem event)
        | _ => rfl

theorem Parked.wakeAll (h : Parked A s) (hr : Rounds A R s) (ht : s.ctl t = .waking)
    (hexec : s.wakeAll A t = some s') : Parked A s' := by
  obtain ⟨hfree, fm, ctl, hnone, hmutex, hself, hothers, rfl⟩ := h.wakeAll_cases hr ht hexec
  have hsleepless : ∀ t' event, ctl t' ≠ .sleeping event := by
    intro t' event hno
    by_cases heq : t' = t
    · rw [heq, hself] at hno
      exact absurd hno (by simp)
    · rw [hothers t' heq] at hno
      cases hc : s.ctl t' <;> simp [hc, Ctl.resume] at hno
  refine ⟨h.other hmutex (by simp [hfree]), fun t' => ?_, fun t' => ?_, ?_⟩
  · have hplace := h.place t'
    unfold PlaceOk at hplace ⊢
    dsimp only
    by_cases heq : t' = t
    · subst heq
      rw [ht] at hplace
      rw [hself]
      exact Or.inl hplace
    · rw [hothers t' heq]
      cases hc : s.ctl t' with
      | settling event => exact absurd hc (h.not_settling hfree t' event)
      | _ =>
        rw [hc] at hplace
        exact hplace
  · show t' ∈ fm.waiters A.event ↔ ∃ event, ctl t' = .sleeping event
    simp [hnone, hsleepless]
  · show (fm.waiters A.event).Nodup
    simp [hnone]

theorem Rounds.wakeAll (hp : Parked A s) (h : Rounds A R s) (ht : s.ctl t = .waking)
    (hexec : s.wakeAll A t = some s') : Rounds A R s' := by
  obtain ⟨hfree, fm, ctl, -, -, hself, hothers, rfl⟩ := hp.wakeAll_cases h ht hexec
  refine ⟨fun t' ht' => ?_, fun t' => ?_, h.event, h.count, h.missing, h.pending,
    fun t' ht' _ => ?_⟩
  · by_cases heq : t' = t
    · subst heq
      exact h.member t' (by simp [ht])
    · apply h.member t'
      intro hidle
      apply ht'
      show ctl t' = .idle
      rw [hothers t' heq, hidle]
      rfl
  · have hcalls := h.calls t'
    unfold CallsOk at hcalls ⊢
    dsimp only
    by_cases heq : t' = t
    · subst heq
      rw [ht] at hcalls
      rw [hself]
      exact hcalls
    · rw [hothers t' heq]
      cases hc : s.ctl t' <;> rw [hc] at hcalls <;> exact hcalls
  · -- No task sleeps any more.
    obtain ⟨event, hc⟩ := ht'
    replace hc : ctl t' = .settling event ∨ ctl t' = .sleeping event := hc
    by_cases heq : t' = t
    · rw [heq, hself] at hc
      simp at hc
    · rw [hothers t' heq] at hc
      cases hold : s.ctl t' with
      | settling event' => exact absurd hold (hp.not_settling hfree t' event')
      | _ => simp [hold, Ctl.resume] at hc

end Wake

/-! ## Runs -/

section Run

variable {A : Params} {s s' : State}

theorem BarrierOk.step {op : Op} (h : BarrierOk A s) (hstep : Step A s op s') :
    BarrierOk A s' := by
  obtain ⟨hparked, R, hrounds⟩ := h
  obtain ⟨hallowed, hexec⟩ := hstep
  cases op with
  | mutex op =>
    obtain ⟨b, hb, rfl⟩ := Option.map_eq_some_iff.mp hexec
    exact ⟨hparked.mutex hallowed.2 ⟨hallowed.1, hb⟩, R, hrounds.mutex⟩
  | barrierWait t =>
    obtain rfl := Option.some.inj hexec
    exact ⟨hparked.barrierWait hallowed.2, R, hrounds.barrierWait hallowed.1 hallowed.2⟩
  | arrive t =>
    obtain rfl := Option.some.inj hexec
    exact ⟨hparked.arrive hallowed.1 hallowed.2, hrounds.arrive hallowed.1⟩
  | wakeAll t =>
    exact ⟨hparked.wakeAll hrounds hallowed hexec, R, hrounds.wakeAll hparked hallowed hexec⟩
  | pause t => exact ⟨hparked.pause hallowed.1 hexec, R, hrounds.pause hexec⟩
  | settle t => exact ⟨hparked.settle hexec, R, hrounds.settle hexec⟩
  | check t => exact ⟨hparked.check hexec, R, hrounds.check hexec⟩
  | leave t =>
    obtain rfl := Option.some.inj hexec
    obtain ⟨hout, hctl⟩ := hallowed
    have hcalls := hrounds.calls t
    unfold CallsOk at hcalls
    rw [hctl] at hcalls
    refine ⟨hparked.leave hout (by simp [hctl]), R, ?_⟩
    exact hrounds.leave (hrounds.member t (by simp [hctl])) (by simp [hctl]) hcalls.1 hcalls.2.1
      hcalls.2.2

theorem BarrierOk.init {futexes : FutexManager} (hmutex : futexes.waiters A.mutex = [])
    (hevent : futexes.waiters A.event = []) :
    BarrierOk A (State.barrierInit futexes A.tasks.card) := by
  refine ⟨⟨LockOk.free rfl hmutex fun _ => rfl, fun t => rfl, fun t => ?_, ?_⟩, 0, ?_⟩
  · show t ∈ futexes.waiters A.event ↔ ∃ event, Ctl.idle = .sleeping event
    simp [hevent]
  · show (futexes.waiters A.event).Nodup
    simp [hevent]
  · refine ⟨fun t ht => absurd rfl ht, fun t => ⟨rfl, rfl, fun _ => rfl⟩, rfl, rfl, ?_, ?_,
      fun t ht => ?_⟩
    · simp [present, State.barrierInit]
    · exact Finset.card_pos.mpr
    · simp [Drowsy, State.barrierInit] at ht

theorem BarrierOk.run {ops : List Op} (h : BarrierOk A s) (hrun : Run (Step A) s ops s') :
    BarrierOk A s' :=
  hrun.invariant h fun _ _ _ hok hstep => hok.step hstep

/-- Nobody has returned from more rounds than are complete, and everybody has entered
as many. -/
theorem Rounds.returned_le_entered {R t t' : Nat} (h : Rounds A R s) (ht : t ∈ A.tasks)
    (ht' : t' ∈ A.tasks) : s.returned t ≤ s.entered t' := by
  have hreturned : s.returned t ≤ R := by
    have hcalls := h.calls t
    unfold CallsOk at hcalls
    cases hctl : s.ctl t with
    | idle =>
      rw [hctl] at hcalls
      have hR := hcalls.2.2 ht
      omega
    | _ =>
      rw [hctl] at hcalls
      simp only at hcalls
      omega
  have hentered : R ≤ s.entered t' := by
    have hcalls := h.calls t'
    unfold CallsOk at hcalls
    cases hctl : s.ctl t' with
    | idle =>
      rw [hctl] at hcalls
      have hR := hcalls.2.2 ht'
      omega
    | _ =>
      rw [hctl] at hcalls
      simp only at hcalls
      omega
  omega

/-- All tasks have made their decrement of round `r`; rounds count from 0. -/
def Complete (A : Params) (s : State) (r : Nat) : Prop := ∀ t ∈ A.tasks, r < s.arrived t

/-- A task is about to wake all sleeping tasks, and after its wake the task `t` is
awake. -/
def WakePending (A : Params) (s : State) (t : Nat) : Prop :=
  ∃ t', s.ctl t' = .waking ∧
    ∀ s', Step A s (.wakeAll t') s' → ∃ event, s'.ctl t = .checking event

theorem BarrierOk.wakePending {t event r : Nat} (h : BarrierOk A s)
    (hctl : s.ctl t = .sleeping event) (hround : s.entered t = r + 1)
    (hcomplete : Complete A s r) : WakePending A s t := by
  obtain ⟨hparked, R, hrounds⟩ := h
  have hmember : t ∈ A.tasks := hrounds.member t (by simp [hctl])
  have hcalls := hrounds.calls t
  unfold CallsOk at hcalls
  rw [hctl] at hcalls
  obtain ⟨hentered, -, hR, -⟩ := hcalls
  have hold : s.arrived t = R := by
    rcases hR with hR | hR
    · exact hR
    · -- The round after the first `R` still misses a task.
      have hpresent : present A R s = A.tasks := by
        apply Finset.filter_true_of_mem
        intro t' ht'
        have harrived := hcomplete t' ht'
        have hcalls' := hrounds.calls t'
        unfold CallsOk at hcalls'
        cases hctl' : s.ctl t' with
        | idle =>
          rw [hctl'] at hcalls'
          have hR' := hcalls'.2.2 ht'
          omega
        | _ =>
          rw [hctl'] at hcalls'
          simp only at hcalls'
          omega
      have hmissing := hrounds.missing
      have hpos := hrounds.pending ⟨t, hmember⟩
      rw [hpresent] at hmissing
      omega
  obtain ⟨t', hwaking⟩ := hrounds.wake t ⟨event, Or.inr hctl⟩ hold
  refine ⟨t', hwaking, fun s' hstep => ⟨event, ?_⟩⟩
  obtain ⟨-, fm, ctl, -, -, -, hothers, rfl⟩ := hparked.wakeAll_cases hrounds hwaking hstep.2
  show ctl t = .checking event
  rw [hothers t ?_, hctl]
  · rfl
  · rintro rfl
    exact absurd (hctl.symm.trans hwaking) (by simp)

/-- In every state of every run in which as many tasks as the count use the barrier:

* no task has returned more often than any task has entered;
* while a task sleeps on the event of a complete round, a wake of it is pending;
* while a task sleeps on the futex of the mutex, a task holds the mutex with the word
  at 2, or a running task is on its way to mark the word or to wake a task. -/
theorem barrier_of_run {futexes : FutexManager} {ops : List Op}
    (hmutex : futexes.waiters A.mutex = []) (hevent : futexes.waiters A.event = [])
    (hrun : Run (Step A) (State.barrierInit futexes A.tasks.card) ops s) :
    (∀ t ∈ A.tasks, ∀ t' ∈ A.tasks, s.returned t ≤ s.entered t') ∧
    (∀ t event r, s.ctl t = .sleeping event → s.entered t = r + 1 → Complete A s r →
      WakePending A s t) ∧
    (∀ t, s.base.tasks t = .asleep → (∃ t', s.base.tasks t' = .held ∧ s.base.mutex.ivVal = 2) ∨
      ∃ t', (s.base.tasks t').OnTheWay) := by
  have hok : BarrierOk A s := (BarrierOk.init hmutex hevent).run hrun
  refine ⟨fun t ht t' ht' => ?_, fun t event r hctl hround hcomplete => ?_, fun t ht => ?_⟩
  · obtain ⟨R, hrounds⟩ := hok.rounds
    exact hrounds.returned_le_entered ht ht'
  · exact hok.wakePending hctl hround hcomplete
  · exact hok.parked.lock.owed t (Or.inl ht)

end Run


/-- Two tasks: task 0 has released the mutex and is before `futex_wait`. -/
def firstArrived : State where
  base := Plain.State.init ⟨none, []⟩
  ivEvent := 0
  ivMissing := 1
  ivCount := 2
  ctl := update (fun _ => .idle) 0 (.unlocking 0)
  entered := update (fun _ => 0) 0 1
  arrived := update (fun _ => 0) 0 1
  returned := fun _ => 0

theorem firstArrived_run : Run (Step ⟨8, 16, {0, 1}, by decide, by decide⟩)
    (State.barrierInit ⟨none, []⟩ 2)
    [.barrierWait 0, .mutex (.lock 0), .arrive 0, .mutex (.unlock 0)] firstArrived := by
  refine .cons ⟨⟨by decide, rfl⟩, rfl⟩ (.cons ⟨⟨rfl, rfl⟩, rfl⟩
    (.cons ⟨⟨rfl, rfl⟩, rfl⟩ (.cons ⟨⟨rfl, Or.inr ⟨0, rfl⟩⟩, ?_⟩ .nil)))
  have htwo : sub64 2 1 = 1 := sub64_of_le (by norm_num) (by norm_num)
  have hone : sub64 1 1 = 0 := sub64_of_le (by norm_num) (by norm_num)
  simp [State.exec, Plain.State.exec, Plain.State.mutexUnlock, State.arrive, htwo, hone,
    State.barrierWait, State.barrierInit, State.setCtl, Plain.State.setVal, Plain.State.setTask,
    Plain.State.init, mutexInit, firstArrived]

/-- Then task 0 sleeps, and task 1 has completed the round and has not woken it yet. -/
theorem barrier_of_run_complete :
    ∃ ops s, Run (Step ⟨8, 16, {0, 1}, by decide, by decide⟩)
        (State.barrierInit ⟨none, []⟩ 2) ops s ∧
      s.ctl 0 = .sleeping 0 ∧ s.ivEvent = 1 ∧
      WakePending ⟨8, 16, {0, 1}, by decide, by decide⟩ s 0 := by
  have hlast : ∃ s, Run (Step ⟨8, 16, {0, 1}, by decide, by decide⟩) firstArrived
      [.pause 0, .settle 0, .barrierWait 1, .mutex (.lock 1), .arrive 1] s ∧
      s.ctl 0 = .sleeping 0 ∧ s.ivEvent = 1 ∧ s.entered 0 = 1 ∧ s.arrived 0 = 1 ∧
      s.arrived 1 = 1 := by
    refine ⟨_, .cons ⟨⟨rfl, 0, rfl⟩, rfl⟩ (.cons ⟨⟨0, rfl⟩, rfl⟩ (.cons ⟨⟨by decide, rfl⟩, rfl⟩
      (.cons ⟨⟨rfl, rfl⟩, rfl⟩ (.cons ⟨⟨rfl, rfl⟩, rfl⟩ .nil)))), rfl, rfl, rfl, rfl, rfl⟩
  obtain ⟨s, hlast, hctl, hevent, hentered, h0, h1⟩ := hlast
  have hrun := firstArrived_run.append hlast
  refine ⟨_, s, hrun, hctl, hevent, ?_⟩
  apply (barrier_of_run rfl rfl hrun).2.1 0 0 0 hctl hentered
  intro t ht
  rcases Finset.mem_insert.mp ht with rfl | ht
  · omega
  · rw [Finset.mem_singleton.mp ht]
    omega

end Hostboot.Sync.Barrier
