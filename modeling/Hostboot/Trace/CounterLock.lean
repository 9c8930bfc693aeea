import Hostboot.Lib.Run
import Hostboot.Lib.Tally
import Hostboot.Sync.Futex
import Mathlib.Algebra.Group.Nat.Defs

/-!
# The lock of a trace buffer

`Buffer::_producerEnter`, `_producerExit`, `_consumerEnter` and `_consumerExit`
of `src/usr/trace/buffer.C`.  The clients of a trace buffer are its producers,
and the daemon is its one consumer.  A word of 64 bits holds two counts of
32 bits, the producers inside and the consumer.  It is read and swapped as a
whole, and it is the futex on which both sides sleep.

A step is one access to the word or one operation of the futex manager.  The
tasks `0`, ..., `n - 1` are the producers and the task `n` is the consumer.
The futex manager serves other futexes at the same time.

There are four groups.

* The word, the phases of the tasks and the steps.
* The invariant `LockOk`.  The word counts the producers that are inside and
  announces the consumer, and whoever sleeps has a reason or a wake is due.
* The steps keep the invariant, for fewer than `2 ^ 32` producers.
* Runs.  `counterLock_of_run` is the result.  The producers are tasks, and `tid_t`
  has 16 bits: `createStack` asserts that it finds no stack for a new id, so the
  tasks that have a stack at one time have different ids, and the count of 32 bits
  does not wrap.
-/

namespace Hostboot.Trace

open Hostboot.Lib Hostboot.Sync
open Function (update update_of_ne update_self)

/-- `Buffer::locklessCounter`: two fields of 32 bits. -/
@[ext] structure LocklessCounter where
  producerCount : Nat
  consumerCount : Nat
  producer_lt : producerCount < 2 ^ 32
  consumer_lt : consumerCount < 2 ^ 32
  deriving DecidableEq, Repr

namespace LocklessCounter

/-- The whole word. -/
def totals (v : LocklessCounter) : Nat := v.producerCount * 2 ^ 32 + v.consumerCount

/-- The word of a new buffer. -/
def zero : LocklessCounter := ⟨0, 0, by decide, by decide⟩

/-- `producerCount++`. -/
def incProducer (v : LocklessCounter) : LocklessCounter :=
  { v with
    producerCount := (v.producerCount + 1) % 2 ^ 32
    producer_lt := Nat.mod_lt _ (by decide) }

/-- `producerCount--`. -/
def decProducer (v : LocklessCounter) : LocklessCounter :=
  { v with
    producerCount := (2 ^ 32 - 1 + v.producerCount) % 2 ^ 32
    producer_lt := Nat.mod_lt _ (by decide) }

/-- `consumerCount = 1`. -/
def setConsumer (v : LocklessCounter) : LocklessCounter :=
  { v with consumerCount := 1, consumer_lt := by decide }

/-- `consumerCount = 0`. -/
def clearConsumer (v : LocklessCounter) : LocklessCounter :=
  { v with consumerCount := 0, consumer_lt := by decide }

theorem totals_inj {v w : LocklessCounter} (h : v.totals = w.totals) : v = w := by
  have hv := v.consumer_lt
  have hw := w.consumer_lt
  unfold totals at h
  ext
  · omega
  · omega

end LocklessCounter

/-- What a task does.  A value is the local copy of the word. -/
inductive Phase where
  /-- Outside of the four functions and of the section. -/
  | out
  /-- At the top of the loop of an enter function, after a failed attempt or,
  for a producer, after `futex_wait`. -/
  | entering
  /-- An enter function has read the word. -/
  | looked (value : LocklessCounter)
  /-- The consumer, announced, before `futex_wait`. -/
  | waiting (newValue : LocklessCounter)
  /-- The consumer after `futex_wait`. -/
  | draining
  /-- Inside `futex_wait`, after the comparison. -/
  | compared
  | asleep
  /-- In the section. -/
  | inside
  /-- At the top of the loop of an exit function after a failed attempt. -/
  | exiting
  /-- An exit function has read the word. -/
  | leaving (value : LocklessCounter)
  /-- Before the `futex_wake` of an exit function. -/
  | waking
  deriving DecidableEq, Repr

namespace Phase

/-- The task has not given up its section. -/
def inSection : Phase → Bool
  | inside | exiting | leaving _ => true
  | _ => false

/-- The consumer has announced itself. -/
def announced : Phase → Bool
  | waiting _ | draining | compared | asleep | inside | exiting | leaving _ => true
  | _ => false

/-- The task sleeps or is about to. -/
def sleepy : Phase → Bool
  | compared | asleep => true
  | _ => false

end Phase

/-- The word, the futex manager and the phases of the tasks. -/
structure State where
  ivCounters : LocklessCounter
  futexes : FutexManager
  phase : Nat → Phase

namespace State

def setPhase (s : State) (t : Nat) (p : Phase) : State :=
  { s with phase := update s.phase t p }

def setCounters (s : State) (v : LocklessCounter) : State := { s with ivCounters := v }

/-- `value = iv_counters` in an enter function. -/
def readEnter (s : State) (t : Nat) : State := s.setPhase t (.looked s.ivCounters)

/-- `value = iv_counters` in an exit function. -/
def readExit (s : State) (t : Nat) : State := s.setPhase t (.leaving s.ivCounters)

/-- `futex_wait` up to the comparison.  `back` is where the task goes on if the
word has changed. -/
def futexWait (s : State) (t : Nat) (value : LocklessCounter) (back : Phase) : Option State :=
  (s.futexes.waitCompare t s.ivCounters.totals value.totals).map fun r =>
    { s with futexes := r.1 }.setPhase t (if r.2 then .compared else back)

/-- The rest of `futex_wait` for a task that sleeps. -/
def sleep (addr : Nat) (s : State) (t : Nat) : State :=
  { s with futexes := s.futexes.waitInsert t addr }.setPhase t .asleep

/-- The compare-and-swap of `_producerEnter`. -/
def producerEnter (s : State) (t : Nat) (value : LocklessCounter) : State :=
  if s.ivCounters = value then (s.setCounters value.incProducer).setPhase t .inside
  else s.setPhase t .entering

/-- The compare-and-swap of `_producerExit`. -/
def producerExit (s : State) (t : Nat) (value : LocklessCounter) : State :=
  if s.ivCounters = value then
    let newValue := value.decProducer
    (s.setCounters newValue).setPhase t
      (if newValue.producerCount = 0 ∧ newValue.consumerCount ≠ 0 then .waking else .out)
  else s.setPhase t .exiting

/-- The compare-and-swap of `_consumerEnter`. -/
def consumerEnter (s : State) (t : Nat) (value : LocklessCounter) : State :=
  if s.ivCounters = value then
    let newValue := value.setConsumer
    (s.setCounters newValue).setPhase t
      (if newValue.producerCount ≠ 0 then .waiting newValue else .inside)
  else s.setPhase t .entering

/-- `newValue = iv_counters` in the loop of `_consumerEnter`. -/
def consumerDrain (s : State) (t : Nat) : State :=
  s.setPhase t (if s.ivCounters.producerCount ≠ 0 then .waiting s.ivCounters else .inside)

/-- The compare-and-swap of `_consumerExit`. -/
def consumerExit (s : State) (t : Nat) (value : LocklessCounter) : State :=
  if s.ivCounters = value then (s.setCounters value.clearConsumer).setPhase t .waking
  else s.setPhase t .exiting

/-- `futex_wake` of `UINT64_MAX` tasks.  A started producer is at the top of its
loop, and the started consumer reads the word. -/
def futexWake (n addr : Nat) (s : State) (t : Nat) : Option State :=
  (s.futexes.wake addr (2 ^ 64 - 1) none 0).map fun r =>
    { s with
      futexes := r.1
      phase := fun t' =>
        if t' ∈ r.2 then (if t' = n then .draining else .entering)
        else update s.phase t .out t' }

/-- A new buffer.  Nobody waits. -/
def init : State where
  ivCounters := .zero
  futexes := ⟨none, []⟩
  phase := fun _ => .out

end State

/-- The steps. -/
inductive Op where
  | readEnter (t : Nat)
  | futexWait (t : Nat)
  | sleep (t : Nat)
  | swapEnter (t : Nat)
  | drain (t : Nat)
  | readExit (t : Nat)
  | swapExit (t : Nat)
  | futexWake (t : Nat)
  /-- The futex manager works for another futex. -/
  | other (futexes : FutexManager)
  deriving DecidableEq, Repr

/-- One step of `n` producers and the consumer on the word at `addr`. -/
inductive Step (n addr : Nat) (s : State) : Op → State → Prop
  | readEnter {t : Nat} (ht : t ≤ n) (hp : s.phase t = .out ∨ s.phase t = .entering) :
      Step n addr s (.readEnter t) (s.readEnter t)
  | producerWait {t : Nat} {value : LocklessCounter} {s' : State} (ht : t < n)
      (hp : s.phase t = .looked value) (hvalue : value.consumerCount ≠ 0)
      (hs : s.futexWait t value .entering = some s') : Step n addr s (.futexWait t) s'
  | consumerWait {value : LocklessCounter} {s' : State} (hp : s.phase n = .waiting value)
      (hs : s.futexWait n value .draining = some s') : Step n addr s (.futexWait n) s'
  | sleep {t : Nat} (ht : t ≤ n) (hp : s.phase t = .compared) :
      Step n addr s (.sleep t) (s.sleep addr t)
  | producerEnter {t : Nat} {value : LocklessCounter} (ht : t < n)
      (hp : s.phase t = .looked value) (hvalue : value.consumerCount = 0) :
      Step n addr s (.swapEnter t) (s.producerEnter t value)
  | consumerEnter {value : LocklessCounter} (hp : s.phase n = .looked value) :
      Step n addr s (.swapEnter n) (s.consumerEnter n value)
  | drain (hp : s.phase n = .draining) : Step n addr s (.drain n) (s.consumerDrain n)
  | readExit {t : Nat} (ht : t ≤ n) (hp : s.phase t = .inside ∨ s.phase t = .exiting) :
      Step n addr s (.readExit t) (s.readExit t)
  | producerExit {t : Nat} {value : LocklessCounter} (ht : t < n)
      (hp : s.phase t = .leaving value) :
      Step n addr s (.swapExit t) (s.producerExit t value)
  | consumerExit {value : LocklessCounter} (hp : s.phase n = .leaving value) :
      Step n addr s (.swapExit n) (s.consumerExit n value)
  | futexWake {t : Nat} {s' : State} (ht : t ≤ n) (hp : s.phase t = .waking)
      (hs : s.futexWake n addr t = some s') : Step n addr s (.futexWake t) s'
  | other {futexes : FutexManager} (hwaiters : futexes.waiters addr = s.futexes.waiters addr)
      (hlock : ∀ t, s.phase t = .compared → futexes.ivLock = s.futexes.ivLock) :
      Step n addr s (.other futexes) { s with futexes := futexes }

/-! ## The invariant -/

/-- The producers that have not given up their section. -/
def producersInside (n : Nat) (s : State) : Nat :=
  tally (fun t : Fin n => s.phase t) Phase.inSection

/-- The word tells who is inside. -/
structure CountOk (n : Nat) (s : State) : Prop where
  producers : s.ivCounters.producerCount = producersInside n s
  consumer : s.ivCounters.consumerCount = if (s.phase n).announced then 1 else 0
  alone : (s.phase n).inSection = true → s.ivCounters.producerCount = 0
  waiting : ∀ v, s.phase n = .waiting v → v.producerCount ≠ 0

/-- The futex manager lists the sleeping tasks. -/
structure Listed (n addr : Nat) (s : State) : Prop where
  mem : ∀ t, t ∈ s.futexes.waiters addr ↔ s.phase t = .asleep
  nodup : (s.futexes.waiters addr).Nodup
  locked : ∀ t, s.phase t = .compared → s.futexes.ivLock = some t
  absent : ∀ t, n < t → s.phase t = .out

/-- A producer sleeps while the consumer is announced, and the consumer while
producers are inside, or a wake is due. -/
structure Justified (n : Nat) (s : State) : Prop where
  producer : ∀ t, t < n → (s.phase t).sleepy = true →
    s.ivCounters.consumerCount ≠ 0 ∨ s.phase n = .waking
  consumer : (s.phase n).sleepy = true →
    s.ivCounters.producerCount ≠ 0 ∨ ∃ t, t < n ∧ s.phase t = .waking

/-- The invariant of the lock. -/
structure LockOk (n addr : Nat) (s : State) : Prop where
  count : CountOk n s
  listed : Listed n addr s
  justified : Justified n s

section Invariant

variable {n addr t : Nat} {s s' : State} {p : Phase}

theorem producersInside_update (ht : t < n) (hphase : s'.phase = update s.phase t p) :
    producersInside n s' + (s.phase t).inSection.toNat
      = producersInside n s + p.inSection.toNat := by
  have hupdate : (fun i : Fin n => s'.phase i)
      = update (fun i : Fin n => s.phase i) ⟨t, ht⟩ p := by
    funext i
    rw [hphase]
    by_cases heq : i = ⟨t, ht⟩
    · subst heq
      simp
    · rw [update_of_ne heq, update_of_ne]
      exact fun hval => heq (Fin.ext hval)
  unfold producersInside
  rw [hupdate]
  exact tally_update _ _ _ _

theorem producersInside_update_consumer (hphase : s'.phase = update s.phase n p) :
    producersInside n s' = producersInside n s := by
  apply tally_congr
  intro i
  rw [hphase, update_of_ne]
  exact Nat.ne_of_lt i.2

theorem producersInside_le (n : Nat) (s : State) : producersInside n s ≤ n := by
  have hle := tally_le_card (fun t : Fin n => s.phase t) Phase.inSection
  rwa [Fintype.card_fin] at hle

theorem CountOk.producer_pos (h : CountOk n s) (ht : t < n) (hp : (s.phase t).inSection = true) :
    0 < s.ivCounters.producerCount := by
  rw [h.producers]
  exact tally_pos (f := fun i : Fin n => s.phase i) (c := ⟨t, ht⟩) hp

theorem CountOk.announced_iff (h : CountOk n s) :
    s.ivCounters.consumerCount ≠ 0 ↔ (s.phase n).announced = true := by
  rw [h.consumer]
  cases (s.phase n).announced <;> simp

theorem announced_of_inSection (h : p.inSection = true) : p.announced = true := by
  cases p <;> first | rfl | cases h

theorem announced_of_sleepy (h : p.sleepy = true) : p.announced = true := by
  cases p <;> first | rfl | cases h

/-! ## Steps that change the phase of one task -/

theorem CountOk.quietProducer (h : CountOk n s) (ht : t < n)
    (hin : p.inSection = (s.phase t).inSection)
    (hphase : s'.phase = update s.phase t p) (hword : s'.ivCounters = s.ivCounters) :
    CountOk n s' := by
  have hcount := producersInside_update ht hphase
  have hn : s'.phase n = s.phase n := by
    rw [hphase, update_of_ne (by omega)]
  rw [hin] at hcount
  constructor
  · rw [hword, h.producers]
    omega
  · rw [hword, hn]
    exact h.consumer
  · rw [hword, hn]
    exact h.alone
  · rw [hn]
    exact h.waiting

theorem CountOk.quietConsumer (h : CountOk n s) (hann : p.announced = (s.phase n).announced)
    (halone : p.inSection = true → s.ivCounters.producerCount = 0)
    (hwaiting : ∀ v, p = .waiting v → v.producerCount ≠ 0)
    (hphase : s'.phase = update s.phase n p) (hword : s'.ivCounters = s.ivCounters) :
    CountOk n s' := by
  have hn : s'.phase n = p := by rw [hphase, update_self]
  constructor
  · rw [hword, h.producers, producersInside_update_consumer hphase]
  · rw [hword, hn, hann]
    exact h.consumer
  · rw [hword, hn]
    exact halone
  · rw [hn]
    exact hwaiting

theorem Listed.awake (h : Listed n addr s) (ht : t ≤ n) (hold : (s.phase t).sleepy = false)
    (hnew : p.sleepy = false) (hphase : s'.phase = update s.phase t p)
    (hfutexes : s'.futexes = s.futexes) : Listed n addr s' := by
  have hcases : ∀ t' q, q.sleepy = true → (s'.phase t' = q ↔ s.phase t' = q) := by
    intro t' q hq
    rw [hphase]
    by_cases heq : t' = t
    · subst heq
      rw [update_self]
      constructor
      · rintro rfl
        exact absurd hq (by simp [hnew])
      · intro hp
        rw [hp] at hold
        exact absurd hq (by simp [hold])
    · rw [update_of_ne heq]
  constructor
  · intro t'
    rw [hfutexes, h.mem, hcases t' _ rfl]
  · rw [hfutexes]
    exact h.nodup
  · intro t' hp
    rw [hfutexes]
    exact h.locked t' ((hcases t' _ rfl).mp hp)
  · intro t' hlt
    rw [hphase, update_of_ne (by omega)]
    exact h.absent t' hlt

theorem Justified.keep (h : Justified n s) (hnew : p.sleepy = false)
    (hwaking : s.phase t ≠ .waking) (hphase : s'.phase = update s.phase t p)
    (hcons : s.ivCounters.consumerCount ≠ 0 →
      s'.ivCounters.consumerCount ≠ 0 ∨ s'.phase n = .waking)
    (hprod : (s.phase n).sleepy = true → s.ivCounters.producerCount ≠ 0 →
      s'.ivCounters.producerCount ≠ 0 ∨ ∃ t', t' < n ∧ s'.phase t' = .waking) :
    Justified n s' := by
  have hold : ∀ t', (s'.phase t').sleepy = true → s'.phase t' = s.phase t' := by
    intro t' hsleepy
    rw [hphase] at hsleepy ⊢
    by_cases heq : t' = t
    · subst heq
      rw [update_self, hnew] at hsleepy
      cases hsleepy
    · rw [update_of_ne heq]
  have hkeep : ∀ t', s.phase t' = .waking → s'.phase t' = .waking := by
    intro t' hp
    rw [hphase, update_of_ne]
    · exact hp
    · rintro rfl
      exact hwaking hp
  constructor
  · intro t' ht' hsleepy
    have hsame := hold t' hsleepy
    rw [hsame] at hsleepy
    rcases h.producer t' ht' hsleepy with hc | hw
    · exact hcons hc
    · exact Or.inr (hkeep n hw)
  · intro hsleepy
    have hsame := hold n hsleepy
    rw [hsame] at hsleepy
    rcases h.consumer hsleepy with hc | ⟨t', ht', hw⟩
    · exact hprod hsleepy hc
    · exact Or.inr ⟨t', ht', hkeep t' hw⟩

theorem Justified.quiet (h : Justified n s) (hnew : p.sleepy = false)
    (hwaking : s.phase t ≠ .waking) (hphase : s'.phase = update s.phase t p)
    (hword : s'.ivCounters = s.ivCounters) : Justified n s' := by
  apply h.keep hnew hwaking hphase
  · intro hc
    rw [hword]
    exact Or.inl hc
  · intro _ hc
    rw [hword]
    exact Or.inl hc

theorem LockOk.quietProducer (h : LockOk n addr s) (ht : t < n)
    (hold : (s.phase t).sleepy = false) (hwaking : s.phase t ≠ .waking)
    (hnew : p.sleepy = false) (hin : p.inSection = (s.phase t).inSection) :
    LockOk n addr (s.setPhase t p) where
  count := h.count.quietProducer ht hin rfl rfl
  listed := h.listed.awake (Nat.le_of_lt ht) hold hnew rfl rfl
  justified := h.justified.quiet hnew hwaking rfl rfl

theorem LockOk.quietConsumer (h : LockOk n addr s)
    (hold : (s.phase n).sleepy = false) (hwaking : s.phase n ≠ .waking)
    (hnew : p.sleepy = false) (hann : p.announced = (s.phase n).announced)
    (halone : p.inSection = true → s.ivCounters.producerCount = 0)
    (hwaiting : ∀ v, p = .waiting v → v.producerCount ≠ 0) :
    LockOk n addr (s.setPhase n p) where
  count := h.count.quietConsumer hann halone hwaiting rfl rfl
  listed := h.listed.awake (Nat.le_refl n) hold hnew rfl rfl
  justified := h.justified.quiet hnew hwaking rfl rfl

/-! ## The futex manager -/

/-- `futex_wait` up to the comparison: the word has changed, or the task holds
the lock of the futex manager. -/
theorem futexWait_cases {value : LocklessCounter} {back : Phase}
    (h : s.futexWait t value back = some s') :
    (s' = s.setPhase t back ∨
      s.futexes.ivLock = none ∧ s.ivCounters = value ∧
        s' = { s with futexes := { s.futexes with ivLock := some t } }.setPhase t .compared) := by
  unfold State.futexWait at h
  obtain ⟨⟨fm, sleep⟩, hfm, rfl⟩ := Option.map_eq_some_iff.mp h
  obtain ⟨hfree, ⟨-, rfl, rfl⟩ | ⟨hval, rfl, rfl⟩⟩ := FutexManager.waitCompare_cases hfm
  · exact Or.inl rfl
  · exact Or.inr ⟨hfree, LocklessCounter.totals_inj hval, rfl⟩

theorem Listed.compared (h : Listed n addr s) (ht : t ≤ n) (hold : (s.phase t).sleepy = false)
    (hfree : s.futexes.ivLock = none) :
    Listed n addr ({ s with
      futexes := { s.futexes with ivLock := some t } }.setPhase t .compared) := by
  constructor
  · intro t'
    refine (h.mem t').trans ?_
    show _ ↔ update s.phase t .compared t' = .asleep
    by_cases heq : t' = t
    · subst heq
      rw [update_self]
      constructor
      · intro hp
        rw [hp] at hold
        cases hold
      · intro hp
        cases hp
    · rw [update_of_ne heq]
  · exact h.nodup
  · intro t' hp
    by_cases heq : t' = t
    · rw [heq]
      rfl
    · have hp' : update s.phase t .compared t' = .compared := hp
      rw [update_of_ne heq] at hp'
      have hno := h.locked t' hp'
      rw [hfree] at hno
      cases hno
  · intro t' hlt
    show update s.phase t .compared t' = .out
    rw [update_of_ne (by omega)]
    exact h.absent t' hlt

theorem Listed.sleep (h : Listed n addr s) (ht : t ≤ n) (hp : s.phase t = .compared) :
    Listed n addr (s.sleep addr t) := by
  have hlock := h.locked t hp
  constructor
  · intro t'
    show t' ∈ (s.futexes.waitInsert t addr).waiters addr ↔
      update s.phase t .asleep t' = .asleep
    rw [FutexManager.waiters_waitInsert, List.mem_cons, h.mem]
    by_cases heq : t' = t
    · simp [heq]
    · simp [heq]
  · show ((s.futexes.waitInsert t addr).waiters addr).Nodup
    rw [FutexManager.waiters_waitInsert]
    apply List.nodup_cons.mpr
    constructor
    · intro hmem
      have hasleep := (h.mem t).mp hmem
      rw [hp] at hasleep
      cases hasleep
    · exact h.nodup
  · intro t' hp'
    have hp'' : update s.phase t .asleep t' = .compared := hp'
    by_cases heq : t' = t
    · subst heq
      rw [update_self] at hp''
      cases hp''
    · rw [update_of_ne heq] at hp''
      have hother := h.locked t' hp''
      rw [hlock] at hother
      exact absurd (Option.some.inj hother).symm heq
  · intro t' hlt
    show update s.phase t .asleep t' = .out
    rw [update_of_ne (by omega)]
    exact h.absent t' hlt

/-- A task that goes to sleep has the reason it had at the comparison. -/
theorem Justified.sleepy (h : Justified n s) (hp : (s.phase t).sleepy = true)
    (hphase : s'.phase = update s.phase t p) (hword : s'.ivCounters = s.ivCounters) :
    Justified n s' := by
  have hwas : ∀ t', (s'.phase t').sleepy = true → (s.phase t').sleepy = true := by
    intro t' hsleepy
    by_cases heq : t' = t
    · rw [heq]
      exact hp
    · rw [hphase, update_of_ne heq] at hsleepy
      exact hsleepy
  have hkeep : ∀ t', s.phase t' = .waking → s'.phase t' = .waking := by
    intro t' hw
    rw [hphase, update_of_ne]
    · exact hw
    · rintro rfl
      rw [hw] at hp
      cases hp
  constructor
  · intro t' ht' hsleepy
    rw [hword]
    exact (h.producer t' ht' (hwas t' hsleepy)).imp_right (hkeep n)
  · intro hsleepy
    rw [hword]
    refine (h.consumer (hwas n hsleepy)).imp_right ?_
    rintro ⟨t', ht', hw⟩
    exact ⟨t', ht', hkeep t' hw⟩

theorem Listed.length_le (h : Listed n addr s) : (s.futexes.waiters addr).length ≤ n + 1 := by
  have hsub : (s.futexes.waiters addr).toFinset ⊆ Finset.range (n + 1) := by
    intro t ht
    have hasleep := (h.mem t).mp (List.mem_toFinset.mp ht)
    rw [Finset.mem_range]
    by_contra hgt
    rw [h.absent t (by omega)] at hasleep
    cases hasleep
  have hcard := Finset.card_le_card hsub
  rwa [List.toFinset_card_of_nodup h.nodup, Finset.card_range] at hcard

/-- `futex_wake` of all tasks: those that slept go on, and the others stay where
they are. -/
theorem Listed.futexWake_cases (h : Listed n addr s) (hn : n < 2 ^ 32)
    (hs : s.futexWake n addr t = some s') :
    s.futexes.ivLock = none ∧ s'.futexes.waiters addr = [] ∧ s'.ivCounters = s.ivCounters ∧
      ∀ t', s'.phase t' =
        if s.phase t' = .asleep then (if t' = n then .draining else .entering)
        else update s.phase t .out t' := by
  unfold State.futexWake at hs
  obtain ⟨⟨fm, tasks⟩, hfm, rfl⟩ := Option.map_eq_some_iff.mp hs
  obtain ⟨hfree, -, htasks, hrest, -⟩ := FutexManager.wake_spec hfm
  have hlength := h.length_le
  rw [List.take_of_length_le (by omega)] at htasks
  rw [List.drop_eq_nil_of_le (by omega)] at hrest
  refine ⟨hfree, hrest, rfl, ?_⟩
  intro t'
  show (if t' ∈ tasks then _ else _) = _
  rw [htasks]
  by_cases hasleep : s.phase t' = .asleep
  · rw [if_pos ((h.mem t').mpr hasleep), if_pos hasleep]
  · rw [if_neg (mt (h.mem t').mp hasleep), if_neg hasleep]

theorem LockOk.futexWake (h : LockOk n addr s) (hn : n < 2 ^ 32) (ht : t ≤ n)
    (hp : s.phase t = .waking) (hs : s.futexWake n addr t = some s') : LockOk n addr s' := by
  obtain ⟨hfree, hempty, hword, hphase⟩ := h.listed.futexWake_cases hn hs
  have hcompared : ∀ t', s.phase t' ≠ .compared := by
    intro t' hp'
    have hlock := h.listed.locked t' hp'
    rw [hfree] at hlock
    cases hlock
  have hself : s'.phase t = .out := by
    rw [hphase, hp, if_neg (by simp), update_self]
  have hother : ∀ t', t' ≠ t → s.phase t' ≠ .asleep → s'.phase t' = s.phase t' := by
    intro t' hne hasleep
    rw [hphase, if_neg hasleep, update_of_ne hne]
  have hwoken : ∀ t', s.phase t' = .asleep →
      s'.phase t' = if t' = n then .draining else .entering := by
    intro t' hasleep
    rw [hphase, if_pos hasleep]
  have hawake : ∀ t', (s'.phase t').sleepy = false := by
    intro t'
    by_cases heq : t' = t
    · rw [heq, hself]
      rfl
    by_cases hasleep : s.phase t' = .asleep
    · rw [hwoken t' hasleep]
      split_ifs <;> rfl
    · rw [hother t' heq hasleep]
      have hno := hcompared t'
      cases hp' : s.phase t' <;> first | rfl | exact absurd hp' hno | exact absurd hp' hasleep
  have hsection : ∀ t', (s'.phase t').inSection = (s.phase t').inSection := by
    intro t'
    by_cases heq : t' = t
    · rw [heq, hself, hp]
      rfl
    by_cases hasleep : s.phase t' = .asleep
    · rw [hwoken t' hasleep, hasleep]
      split_ifs <;> rfl
    · rw [hother t' heq hasleep]
  have hann : (s'.phase n).announced = (s.phase n).announced := by
    by_cases heq : n = t
    · rw [heq, hself, hp]
      rfl
    by_cases hasleep : s.phase n = .asleep
    · rw [hwoken n hasleep, hasleep, if_pos rfl]
      rfl
    · rw [hother n heq hasleep]
  refine ⟨⟨?_, ?_, ?_, ?_⟩, ⟨?_, ?_, ?_, ?_⟩, ⟨?_, ?_⟩⟩
  · rw [hword, h.count.producers]
    apply tally_congr
    intro i
    exact (hsection i).symm
  · rw [hword, hann]
    exact h.count.consumer
  · rw [hword, hsection]
    exact h.count.alone
  · intro v hv
    have heq : n ≠ t := by
      rintro rfl
      rw [hself] at hv
      cases hv
    have hasleep : s.phase n ≠ .asleep := by
      intro hasleep
      rw [hwoken n hasleep, if_pos rfl] at hv
      cases hv
    rw [hother n heq hasleep] at hv
    exact h.count.waiting v hv
  · intro t'
    rw [hempty]
    constructor
    · intro hno
      cases hno
    · intro hasleep
      have hno := hawake t'
      rw [hasleep] at hno
      cases hno
  · rw [hempty]
    exact List.nodup_nil
  · intro t' hp'
    have hno := hawake t'
    rw [hp'] at hno
    cases hno
  · intro t' hlt
    have hout := h.listed.absent t' hlt
    rw [hother t' (by omega) (by rw [hout]; simp), hout]
  · intro t' _ hsleepy
    rw [hawake t'] at hsleepy
    cases hsleepy
  · intro hsleepy
    rw [hawake n] at hsleepy
    cases hsleepy

/-! ## The swaps of the word -/

theorem LockOk.producerEnter {value : LocklessCounter} (h : LockOk n addr s) (hn : n < 2 ^ 32)
    (ht : t < n) (hp : s.phase t = .looked value) (hvalue : value.consumerCount = 0) :
    LockOk n addr (s.producerEnter t value) := by
  unfold State.producerEnter
  split_ifs with hword
  · -- the consumer is not announced, so the count may grow
    subst hword
    have hann : (s.phase n).announced = false := by
      have hnot := mt h.count.announced_iff.mpr (by rw [hvalue]; simp)
      simpa using hnot
    have hne : n ≠ t := Nat.ne_of_gt ht
    have hphase : ((s.setCounters s.ivCounters.incProducer).setPhase t .inside).phase
        = update s.phase t .inside := rfl
    have hconsumer : ((s.setCounters s.ivCounters.incProducer).setPhase t .inside).phase n
        = s.phase n := by
      rw [hphase, update_of_ne hne]
    have hgrow := producersInside_update ht hphase
    rw [hp] at hgrow
    have hbound := producersInside_le n
      ((s.setCounters s.ivCounters.incProducer).setPhase t .inside)
    have hsucc : (s.ivCounters.producerCount + 1) % 2 ^ 32 = s.ivCounters.producerCount + 1 := by
      apply Nat.mod_eq_of_lt
      rw [h.count.producers]
      simp only [Phase.inSection, Bool.toNat_false, Bool.toNat_true] at hgrow
      omega
    refine ⟨⟨?_, ?_, ?_, ?_⟩, ?_, ?_⟩
    · show (s.ivCounters.producerCount + 1) % 2 ^ 32 = _
      rw [hsucc, h.count.producers]
      simpa [Phase.inSection] using hgrow.symm
    · rw [hconsumer]
      exact h.count.consumer
    · rw [hconsumer]
      intro hin
      rw [announced_of_inSection hin] at hann
      cases hann
    · rw [hconsumer]
      exact h.count.waiting
    · exact h.listed.awake (Nat.le_of_lt ht) (by rw [hp]; rfl) rfl hphase rfl
    · apply h.justified.keep rfl (by rw [hp]; simp) hphase
      · intro hc
        exact Or.inl hc
      · intro hsleepy
        rw [announced_of_sleepy hsleepy] at hann
        cases hann
  · exact h.quietProducer ht (by rw [hp]; rfl) (by rw [hp]; simp) rfl (by rw [hp]; rfl)

theorem LockOk.producerExit {value : LocklessCounter} (h : LockOk n addr s) (ht : t < n)
    (hp : s.phase t = .leaving value) : LockOk n addr (s.producerExit t value) := by
  unfold State.producerExit
  split_ifs with hword
  · subst hword
    dsimp only
    have hin : (s.phase t).inSection = true := by
      rw [hp]
      rfl
    have hpos := h.count.producer_pos ht hin
    have hlt := s.ivCounters.producer_lt
    have hne : n ≠ t := Nat.ne_of_gt ht
    have hpred : (2 ^ 32 - 1 + s.ivCounters.producerCount) % 2 ^ 32
        = s.ivCounters.producerCount - 1 := by omega
    generalize hnext : (if s.ivCounters.decProducer.producerCount = 0 ∧
      s.ivCounters.decProducer.consumerCount ≠ 0 then Phase.waking else .out) = p
    have hpcases : p = .waking ∨ p = .out := by
      rw [← hnext]
      split_ifs
      · exact Or.inl rfl
      · exact Or.inr rfl
    have hpout : p.inSection = false ∧ p.sleepy = false := by
      rcases hpcases with rfl | rfl
      · exact ⟨rfl, rfl⟩
      · exact ⟨rfl, rfl⟩
    have hphase : ((s.setCounters s.ivCounters.decProducer).setPhase t p).phase
        = update s.phase t p := rfl
    have hconsumer : ((s.setCounters s.ivCounters.decProducer).setPhase t p).phase n
        = s.phase n := by
      rw [hphase, update_of_ne hne]
    have hshrink := producersInside_update ht hphase
    rw [hin, hpout.1] at hshrink
    have hdec : ((s.setCounters s.ivCounters.decProducer).setPhase t p).ivCounters.producerCount
        = s.ivCounters.producerCount - 1 := hpred
    refine ⟨⟨?_, ?_, ?_, ?_⟩, ?_, ?_⟩
    · rw [hdec, h.count.producers]
      simp only [Bool.toNat_true, Bool.toNat_false] at hshrink
      omega
    · rw [hconsumer]
      exact h.count.consumer
    · rw [hconsumer]
      intro hin'
      have hzero := h.count.alone hin'
      omega
    · rw [hconsumer]
      exact h.count.waiting
    · exact h.listed.awake (Nat.le_of_lt ht) (by rw [hp]; rfl) hpout.2 hphase rfl
    · apply h.justified.keep hpout.2 (by rw [hp]; simp) hphase
      · intro hc
        exact Or.inl hc
      · -- the last producer sees the announcement of a consumer that sleeps
        intro hsleepy _
        have hcons := h.count.announced_iff.mpr (announced_of_sleepy hsleepy)
        by_cases hlast : s.ivCounters.decProducer.producerCount = 0
        · refine Or.inr ⟨t, ht, ?_⟩
          rw [hphase, update_self, ← hnext, if_pos ⟨hlast, hcons⟩]
        · exact Or.inl hlast
  · exact h.quietProducer ht (by rw [hp]; rfl) (by rw [hp]; simp) rfl (by rw [hp]; rfl)

theorem LockOk.consumerEnter {value : LocklessCounter} (h : LockOk n addr s)
    (hp : s.phase n = .looked value) : LockOk n addr (s.consumerEnter n value) := by
  unfold State.consumerEnter
  split_ifs with hword
  · subst hword
    dsimp only
    generalize hnext : (if s.ivCounters.setConsumer.producerCount ≠ 0 then
      Phase.waiting s.ivCounters.setConsumer else .inside) = p
    have hpout : p.announced = true ∧ p.sleepy = false := by
      rw [← hnext]
      split_ifs
      · exact ⟨rfl, rfl⟩
      · exact ⟨rfl, rfl⟩
    have hphase : ((s.setCounters s.ivCounters.setConsumer).setPhase n p).phase
        = update s.phase n p := rfl
    have hself : ((s.setCounters s.ivCounters.setConsumer).setPhase n p).phase n = p := by
      rw [hphase, update_self]
    refine ⟨⟨?_, ?_, ?_, ?_⟩, ?_, ?_⟩
    · rw [producersInside_update_consumer hphase]
      exact h.count.producers
    · rw [hself, hpout.1]
      rfl
    · rw [hself]
      intro hin
      by_contra hne
      have hne' : s.ivCounters.setConsumer.producerCount ≠ 0 := hne
      rw [← hnext, if_pos hne'] at hin
      cases hin
    · rw [hself]
      intro v hv
      by_cases hne : s.ivCounters.setConsumer.producerCount ≠ 0
      · rw [← hnext, if_pos hne] at hv
        cases hv
        exact hne
      · rw [← hnext, if_neg hne] at hv
        cases hv
    · exact h.listed.awake (Nat.le_refl n) (by rw [hp]; rfl) hpout.2 hphase rfl
    · apply h.justified.keep hpout.2 (by rw [hp]; simp) hphase
      · intro _
        exact Or.inl Nat.one_ne_zero
      · intro _ hc
        exact Or.inl hc
  · refine h.quietConsumer (p := .entering) (by rw [hp]; rfl) (by rw [hp]; simp) rfl
      (by rw [hp]; rfl) ?_ ?_
    · intro hin
      cases hin
    · intro v hv
      cases hv

theorem LockOk.consumerDrain (h : LockOk n addr s) (hp : s.phase n = .draining) :
    LockOk n addr (s.consumerDrain n) := by
  unfold State.consumerDrain
  split_ifs with hne
  · refine h.quietConsumer (p := .waiting s.ivCounters) (by rw [hp]; rfl) (by rw [hp]; simp) rfl
      (by rw [hp]; rfl) ?_ ?_
    · intro hin
      cases hin
    · intro v hv
      cases hv
      exact hne
  · refine h.quietConsumer (p := .inside) (by rw [hp]; rfl) (by rw [hp]; simp) rfl
      (by rw [hp]; rfl) ?_ ?_
    · intro _
      exact not_not.mp hne
    · intro v hv
      cases hv

theorem LockOk.consumerExit {value : LocklessCounter} (h : LockOk n addr s)
    (hp : s.phase n = .leaving value) : LockOk n addr (s.consumerExit n value) := by
  unfold State.consumerExit
  split_ifs with hword
  · subst hword
    have hphase : ((s.setCounters s.ivCounters.clearConsumer).setPhase n .waking).phase
        = update s.phase n .waking := rfl
    have hself : ((s.setCounters s.ivCounters.clearConsumer).setPhase n .waking).phase n
        = .waking := by
      rw [hphase, update_self]
    refine ⟨⟨?_, ?_, ?_, ?_⟩, ?_, ?_⟩
    · rw [producersInside_update_consumer hphase]
      exact h.count.producers
    · rw [hself]
      rfl
    · rw [hself]
      intro hin
      cases hin
    · rw [hself]
      intro v hv
      cases hv
    · exact h.listed.awake (Nat.le_refl n) (by rw [hp]; rfl) rfl hphase rfl
    · apply h.justified.keep rfl (by rw [hp]; simp) hphase
      · intro _
        exact Or.inr hself
      · intro _ hc
        exact Or.inl hc
  · refine h.quietConsumer (p := .exiting) (by rw [hp]; rfl) (by rw [hp]; simp) rfl
      (by rw [hp]; rfl) ?_ ?_
    · intro _
      exact h.count.alone (by rw [hp]; rfl)
    · intro v hv
      cases hv

/-! ## Runs -/

theorem LockOk.step {op : Op} (h : LockOk n addr s) (hn : n < 2 ^ 32)
    (hstep : Step n addr s op s') : LockOk n addr s' := by
  cases hstep with
  | @readEnter t ht hp =>
    have hold : (s.phase t).sleepy = false ∧ s.phase t ≠ .waking ∧
        (s.phase t).inSection = false ∧ (s.phase t).announced = false := by
      rcases hp with hp | hp
      · simp [hp, Phase.sleepy, Phase.inSection, Phase.announced]
      · simp [hp, Phase.sleepy, Phase.inSection, Phase.announced]
    by_cases heq : t = n
    · subst heq
      refine h.quietConsumer (p := .looked s.ivCounters) hold.1 hold.2.1 rfl hold.2.2.2.symm
        ?_ ?_
      · intro hin
        cases hin
      · intro v hv
        cases hv
    · exact h.quietProducer (by omega) hold.1 hold.2.1 rfl hold.2.2.1.symm
  | @producerWait t value _ ht hp hvalue hs =>
    rcases futexWait_cases hs with rfl | ⟨hfree, hword, rfl⟩
    · exact h.quietProducer ht (by rw [hp]; rfl) (by rw [hp]; simp) rfl (by rw [hp]; rfl)
    · -- the word still announces the consumer
      refine ⟨?_, h.listed.compared (Nat.le_of_lt ht) (by rw [hp]; rfl) hfree, ?_⟩
      · exact h.count.quietProducer ht (by rw [hp]; rfl) rfl rfl
      · have hkeep : Justified n (s.setPhase t .entering) :=
          h.justified.quiet rfl (by rw [hp]; simp) rfl rfl
        have hne : n ≠ t := Nat.ne_of_gt ht
        constructor
        · intro t' _ _
          rw [← hword] at hvalue
          exact Or.inl hvalue
        · intro hsleepy
          have hn' : update s.phase t .compared n = s.phase n :=
            update_of_ne hne _ _
          have hsleepy' : (s.phase n).sleepy = true := hn' ▸ hsleepy
          refine (h.justified.consumer hsleepy').imp_right ?_
          rintro ⟨t', ht', hw⟩
          refine ⟨t', ht', ?_⟩
          show update s.phase t .compared t' = .waking
          rw [update_of_ne]
          · exact hw
          · rintro rfl
            rw [hp] at hw
            cases hw
  | @consumerWait value _ hp hs =>
    have hcount := h.count.waiting value hp
    rcases futexWait_cases hs with rfl | ⟨hfree, hword, rfl⟩
    · refine h.quietConsumer (p := .draining) (by rw [hp]; rfl) (by rw [hp]; simp) rfl
        (by rw [hp]; rfl) ?_ ?_
      · intro hin
        cases hin
      · intro v hv
        cases hv
    · -- the word still counts a producer
      refine ⟨?_, h.listed.compared (Nat.le_refl n) (by rw [hp]; rfl) hfree, ?_⟩
      · refine h.count.quietConsumer (p := .compared) (by rw [hp]; rfl) ?_ ?_ rfl rfl
        · intro hin
          cases hin
        · intro v hv
          cases hv
      · constructor
        · intro _ _ _
          exact Or.inl (h.count.announced_iff.mpr (by rw [hp]; rfl))
        · intro _
          rw [← hword] at hcount
          exact Or.inl hcount
  | @sleep t ht hp =>
    refine ⟨?_, h.listed.sleep ht hp, ?_⟩
    · by_cases heq : t = n
      · subst heq
        refine h.count.quietConsumer (p := .asleep) (by rw [hp]; rfl) ?_ ?_ rfl rfl
        · intro hin
          cases hin
        · intro v hv
          cases hv
      · exact h.count.quietProducer (p := .asleep) (by omega) (by rw [hp]; rfl) rfl rfl
    · exact h.justified.sleepy (by rw [hp]; rfl) rfl rfl
  | producerEnter ht hp hvalue => exact h.producerEnter hn ht hp hvalue
  | consumerEnter hp => exact h.consumerEnter hp
  | drain hp => exact h.consumerDrain hp
  | @readExit t ht hp =>
    have hold : (s.phase t).sleepy = false ∧ s.phase t ≠ .waking ∧
        (s.phase t).inSection = true := by
      rcases hp with hp | hp
      · simp [hp, Phase.sleepy, Phase.inSection]
      · simp [hp, Phase.sleepy, Phase.inSection]
    by_cases heq : t = n
    · subst heq
      refine h.quietConsumer (p := .leaving s.ivCounters) hold.1 hold.2.1 rfl
        (announced_of_inSection hold.2.2).symm ?_ ?_
      · intro _
        exact h.count.alone hold.2.2
      · intro v hv
        cases hv
    · exact h.quietProducer (by omega) hold.1 hold.2.1 rfl hold.2.2.symm
  | producerExit ht hp => exact h.producerExit ht hp
  | consumerExit hp => exact h.consumerExit hp
  | futexWake ht hp hs => exact h.futexWake hn ht hp hs
  | other hwaiters hlock =>
    refine ⟨⟨h.count.producers, h.count.consumer, h.count.alone, h.count.waiting⟩, ?_,
      ⟨h.justified.producer, h.justified.consumer⟩⟩
    constructor
    · intro t
      rw [hwaiters]
      exact h.listed.mem t
    · rw [hwaiters]
      exact h.listed.nodup
    · intro t hp
      rw [hlock t hp]
      exact h.listed.locked t hp
    · exact h.listed.absent

theorem lockOk_init (n addr : Nat) : LockOk n addr State.init := by
  refine ⟨⟨?_, rfl, ?_, ?_⟩, ⟨?_, List.nodup_nil, ?_, fun _ _ => rfl⟩, ⟨?_, ?_⟩⟩
  · have hzero : producersInside n State.init = 0 := by
      rw [producersInside, tally_eq_zero]
      intro t
      rfl
    exact hzero.symm
  · intro hin
    cases hin
  · intro v hv
    cases hv
  · intro t
    constructor
    · intro hmem
      cases hmem
    · intro hp
      cases hp
  · intro t hp
    cases hp
  · intro t _ hsleepy
    cases hsleepy
  · intro hsleepy
    cases hsleepy

theorem lockOk_of_run {ops : List Op} (hn : n < 2 ^ 32)
    (hrun : Run (Step n addr) State.init ops s) : LockOk n addr s :=
  hrun.invariant (lockOk_init n addr) fun _ _ _ h hstep => h.step hn hstep

end Invariant

theorem producers_lt {n : Nat} {tid : Fin n → Fin (2 ^ 16)} (htid : Function.Injective tid) :
    n < 2 ^ 32 := by
  have hcard := Fintype.card_le_of_injective tid htid
  rw [Fintype.card_fin, Fintype.card_fin] at hcard
  omega

/-- For any number of producers, each a task with an id of its own: while the
consumer is inside no producer is, a producer that leaves is counted, and a task
that sleeps on the word has a reason in the word or a wake is due. -/
theorem counterLock_of_run {n addr : Nat} {tid : Fin n → Fin (2 ^ 16)} {ops : List Op} {s : State}
    (htid : Function.Injective tid) (hrun : Run (Step n addr) State.init ops s) :
    ((s.phase n).inSection = true → ∀ t, t < n → (s.phase t).inSection = false) ∧
    (∀ t, t < n → (s.phase t).inSection = true → 0 < s.ivCounters.producerCount) ∧
    (∀ t, t < n → s.phase t = .asleep →
      s.ivCounters.consumerCount ≠ 0 ∨ s.phase n = .waking) ∧
    (s.phase n = .asleep →
      s.ivCounters.producerCount ≠ 0 ∨ ∃ t, t < n ∧ s.phase t = .waking) := by
  have h := lockOk_of_run (producers_lt htid) hrun
  refine ⟨?_, ?_, ?_, ?_⟩
  · intro hconsumer t ht
    by_contra hno
    have hpos := h.count.producer_pos ht (by simpa using hno)
    have hzero := h.count.alone hconsumer
    omega
  · intro t ht hin
    exact h.count.producer_pos ht hin
  · intro t ht hp
    apply h.justified.producer t ht
    rw [hp]
    rfl
  · intro hp
    apply h.justified.consumer
    rw [hp]
    rfl

/-- Two producers and the consumer: the last producer that leaves wakes the
consumer. -/
theorem counterLock_of_run_two : ∃ ops s, Run (Step 2 8) State.init ops s ∧
    s.phase 2 = .asleep ∧
    (s.ivCounters.producerCount ≠ 0 ∨ ∃ t, t < 2 ∧ s.phase t = .waking) := by
  have hrun : ∃ ops s, Run (Step 2 8) State.init ops s ∧ s.phase 2 = .asleep := by
    refine ⟨_, _, .snoc (.snoc (.snoc (.snoc (.snoc (.snoc .nil
      (.readEnter (t := 0) (by decide) (Or.inl rfl)))
      (.producerEnter (t := 0) (by decide) rfl rfl))
      (.readEnter (t := 2) (by decide) (Or.inl rfl)))
      (.consumerEnter rfl))
      (.consumerWait rfl rfl))
      (.sleep (t := 2) (by decide) rfl), rfl⟩
  obtain ⟨ops, s, hrun, hp⟩ := hrun
  exact ⟨ops, s, hrun, hp,
    (counterLock_of_run (Fin.castLE_injective (show 2 ≤ 2 ^ 16 by decide)) hrun).2.2.2 hp⟩

end Hostboot.Trace
