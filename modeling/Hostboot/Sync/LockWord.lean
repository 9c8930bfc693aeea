import Mathlib
import Hostboot.Util.Machine
import Hostboot.Sync.Futex

/-!
# The three-valued lock word

The mutexes of `src/lib/sync.C` share one protocol on the word `iv_val`: 0 if the
lock is free, 1 if it is held, 2 if it is held and other tasks may sleep on it.
This module is the protocol without the rest of the mutex.  `Phase` says where a
task is in it, and `Move` is what one step of the code can do to the word, to the
futex manager and to the phases; the mutex modules show that each of their steps
is such a move or none.

The invariant `LockOk` has three parts.

* `Exclusive`: the word is 0 and no task is inside, or it is 1 or 2 and exactly one
  task is inside.  A task is inside from the step that takes the lock to the
  step that writes 0, or to the subtraction that ends in 0.
* `Listed`: the futex manager lists the sleeping tasks, each once.
* `Owed`: while a task sleeps, a task holds the lock with the word at 2, or a task is
  on its way: before an exchange that will write 2, or in the slow path of the
  unlock, before its wake.
-/

namespace Hostboot.Sync

open Function (update update_of_ne update_self)

/-- Where a task is in the protocol. -/
inductive Phase where
  | out
  /-- Before `__sync_lock_test_and_set` of 2. -/
  | exchanging
  /-- Before `futex_wait`. -/
  | waiting
  /-- In `futex_wait`, after the comparison and with the lock of the manager. -/
  | compared
  | asleep
  | held
  /-- After the subtraction, before 0 is stored. -/
  | releasing
  /-- Before `futex_wake`. -/
  | waking
  deriving DecidableEq, Repr

namespace Phase

/-- The task keeps the other tasks out. -/
def Inside (p : Phase) : Prop := p = .held ∨ p = .releasing

/-- The task will mark the word as contended or wake a task. -/
def OnTheWay (p : Phase) : Prop := p = .exchanging ∨ p = .releasing ∨ p = .waking

/-- The task sleeps or is about to. -/
def Sleepy (p : Phase) : Prop := p = .asleep ∨ p = .compared

end Phase

open Phase

/-- The word, the futex manager and the phases of the tasks. -/
structure LockWord where
  val : Nat
  futexes : FutexManager
  phase : Nat → Phase

/-- The phases after some tasks were started: they return from `futex_wait`. -/
def started (phase : Nat → Phase) (tasks : List Nat) : Nat → Phase :=
  fun t => if t ∈ tasks then .exchanging else phase t

theorem started_singleton (phase : Nat → Phase) (t : Nat) :
    started phase [t] = update phase t .exchanging := by
  funext t'
  by_cases heq : t' = t
  · simp [started, heq]
  · simp [started, heq]

@[simp] theorem started_nil (phase : Nat → Phase) : started phase [] = phase := by
  funext t
  simp [started]

/-- One step of a task in the protocol of the word at `addr`.  `other` is a step
with other futexes. -/
inductive Move (addr : Nat) (w : LockWord) : LockWord → Prop
  | acquire (t : Nat) (ht : w.phase t = .out) (hval : w.val = 0) :
      Move addr w { w with val := 1, phase := update w.phase t .held }
  | contend (t : Nat) (p : Phase) (ht : w.phase t = .out) (hp : p = .exchanging ∨ p = .waiting) :
      Move addr w { w with phase := update w.phase t p }
  | exchange (t : Nat) (ht : w.phase t = .exchanging) :
      Move addr w { w with
        val := 2
        phase := update w.phase t (if w.val = 0 then .held else .waiting) }
  | compare (t : Nat) (fm : FutexManager) (sleep : Bool) (ht : w.phase t = .waiting)
      (hfm : w.futexes.waitCompare t w.val 2 = some (fm, sleep)) :
      Move addr w { w with
        futexes := fm
        phase := update w.phase t (if sleep then .compared else .exchanging) }
  | sleep (t : Nat) (ht : w.phase t = .compared) :
      Move addr w { w with
        futexes := w.futexes.waitInsert t addr
        phase := update w.phase t .asleep }
  | subtract (t : Nat) (ht : w.phase t = .held) :
      Move addr w { w with
        val := sub64 w.val 1
        phase := update w.phase t (if w.val ≥ 2 then .releasing else .out) }
  | store (t : Nat) (ht : w.phase t = .releasing) :
      Move addr w { w with val := 0, phase := update w.phase t .waking }
  | wake (t : Nat) (fm : FutexManager) (tasks : List Nat) (ht : w.phase t = .waking)
      (hfm : w.futexes.wake addr 1 none 0 = some (fm, tasks)) :
      Move addr w { w with
        futexes := fm
        phase := started (update w.phase t .out) tasks }
  | other (fm : FutexManager) (hwaiters : fm.waiters addr = w.futexes.waiters addr)
      (hlock : ∀ t, w.phase t = .compared → fm.ivLock = w.futexes.ivLock) :
      Move addr w { w with futexes := fm }

/-! ## The invariant -/

/-- The word tells whether a task is inside, and there is at most one. -/
def Exclusive (w : LockWord) : Prop :=
  (w.val = 0 ∧ ∀ t, ¬ (w.phase t).Inside) ∨
    ((w.val = 1 ∨ w.val = 2) ∧ ∃ h, ∀ t, (w.phase t).Inside ↔ t = h)

/-- The futex manager lists the sleeping tasks. -/
structure Listed (addr : Nat) (w : LockWord) : Prop where
  mem : ∀ t, t ∈ w.futexes.waiters addr ↔ w.phase t = .asleep
  nodup : (w.futexes.waiters addr).Nodup
  locked : ∀ t, w.phase t = .compared → w.futexes.ivLock = some t

/-- The lock is held with the word at 2, or a task is on its way. -/
def Due (w : LockWord) : Prop :=
  (∃ t, w.phase t = .held ∧ w.val = 2) ∨ ∃ t, (w.phase t).OnTheWay

/-- No sleeping task is forgotten. -/
def Owed (w : LockWord) : Prop := ∀ t, (w.phase t).Sleepy → Due w

/-- The invariant of the protocol. -/
structure LockOk (addr : Nat) (w : LockWord) : Prop where
  exclusive : Exclusive w
  listed : Listed addr w
  owed : Owed w

/-! ## Exclusion -/

section Exclusion

variable {w w' : LockWord} {t : Nat} {p : Phase}

theorem Exclusive.unique {t t' : Nat} (h : Exclusive w) (ht : (w.phase t).Inside)
    (ht' : (w.phase t').Inside) : t = t' := by
  rcases h with ⟨-, hno⟩ | ⟨-, holder, hiff⟩
  · exact absurd ht (hno t)
  · rw [(hiff t).mp ht, (hiff t').mp ht']

theorem Exclusive.val_ne_zero (h : Exclusive w) (ht : (w.phase t).Inside) :
    w.val = 1 ∨ w.val = 2 := by
  rcases h with ⟨-, hno⟩ | ⟨hval, -⟩
  · exact absurd ht (hno t)
  · exact hval

theorem Exclusive.exists_inside (h : Exclusive w) (hval : w.val ≠ 0) :
    ∃ t, (w.phase t).Inside := by
  rcases h with ⟨hzero, -⟩ | ⟨-, holder, hiff⟩
  · exact absurd hzero hval
  · exact ⟨holder, (hiff holder).mpr rfl⟩

theorem inside_update (ht : ¬ (w.phase t).Inside) (hp : ¬ p.Inside) (t' : Nat) :
    (update w.phase t p t').Inside ↔ (w.phase t').Inside := by
  by_cases heq : t' = t
  · subst heq
    rw [update_self]
    exact iff_of_false hp ht
  · rw [update_of_ne heq]

theorem Exclusive.congr (h : Exclusive w) (hzero : w.val = 0 → w'.val = 0)
    (hpos : w.val ≠ 0 → w'.val = 1 ∨ w'.val = 2)
    (hinside : ∀ t, (w'.phase t).Inside ↔ (w.phase t).Inside) : Exclusive w' := by
  rcases h with ⟨hval, hno⟩ | ⟨hval, holder, hiff⟩
  · exact Or.inl ⟨hzero hval, fun t ht => hno t ((hinside t).mp ht)⟩
  · exact Or.inr ⟨hpos (by omega), holder, fun t => (hinside t).trans (hiff t)⟩

/-- A task that stays outside changes its phase, and the word does not change. -/
theorem Exclusive.outside (h : Exclusive w) (ht : ¬ (w.phase t).Inside) (hp : ¬ p.Inside)
    (hval : w'.val = w.val) (hphase : w'.phase = update w.phase t p) :
    Exclusive w' := by
  have hinside : ∀ t', (w'.phase t').Inside ↔ (w.phase t').Inside := by
    rw [hphase]
    exact inside_update ht hp
  refine h.congr hval.trans (fun hne => ?_) hinside
  obtain ⟨t', ht'⟩ := h.exists_inside hne
  rw [hval]
  exact h.val_ne_zero ht'

theorem Exclusive.enter (h : Exclusive w) (hval : w.val = 0) (hval' : w'.val = 1 ∨ w'.val = 2)
    (hp : p.Inside) (hphase : w'.phase = update w.phase t p) : Exclusive w' := by
  refine Or.inr ⟨hval', t, fun t' => ?_⟩
  rw [hphase]
  by_cases heq : t' = t
  · subst heq
    rw [update_self]
    exact iff_of_true hp rfl
  · rw [update_of_ne heq]
    refine iff_of_false (fun hin => ?_) heq
    rcases h.val_ne_zero hin with hone | htwo <;> omega

theorem Exclusive.leave (h : Exclusive w) (ht : (w.phase t).Inside) (hval' : w'.val = 0)
    (hp : ¬ p.Inside) (hphase : w'.phase = update w.phase t p) : Exclusive w' := by
  refine Or.inl ⟨hval', fun t' hin => ?_⟩
  rw [hphase] at hin
  by_cases heq : t' = t
  · subst heq
    rw [update_self] at hin
    exact hp hin
  · rw [update_of_ne heq] at hin
    exact heq (h.unique hin ht)

theorem Exclusive.move {addr : Nat} (h : Exclusive w) (hlisted : Listed addr w)
    (hmove : Move addr w w') : Exclusive w' := by
  cases hmove with
  | acquire t ht hval => exact h.enter hval (Or.inl rfl) (Or.inl rfl) rfl
  | contend t p ht hp =>
    refine h.outside (by simp [Inside, ht]) ?_ rfl rfl
    rcases hp with rfl | rfl <;> simp [Inside]
  | exchange t ht =>
    by_cases hval : w.val = 0
    · refine h.enter hval (Or.inr rfl) (p := .held) (Or.inl rfl) (t := t) ?_
      simp [hval]
    · refine h.congr (fun hno => absurd hno hval) (fun _ => Or.inr rfl) ?_
      refine inside_update (by simp [Inside, ht]) ?_
      simp [Inside, hval]
  | compare t fm sleep ht hfm =>
    refine h.outside (by simp [Inside, ht]) ?_ rfl rfl
    cases sleep <;> simp [Inside]
  | sleep t ht => exact h.outside (by simp [Inside, ht]) (by simp [Inside]) rfl rfl
  | subtract t ht =>
    have hin : (w.phase t).Inside := Or.inl ht
    rcases h.val_ne_zero hin with hval | hval
    · refine h.leave hin (p := .out) ?_ (by simp [Inside]) (by simp [hval])
      simp [hval, sub64]
    · refine h.congr (fun hno => ?_) (fun _ => Or.inl ?_) fun t' => ?_
      · omega
      · simp [hval, sub64]
      · by_cases heq : t' = t
        · subst heq
          simp [Inside, hval, ht]
        · simp [update_of_ne heq]
  | store t ht => exact h.leave (Or.inr ht) rfl (by simp [Inside]) rfl
  | wake t fm tasks ht hfm =>
    have hout : Exclusive { w with phase := update w.phase t .out } :=
      h.outside (by simp [Inside, ht]) (by simp [Inside]) rfl rfl
    obtain ⟨-, -, ⟨-, -, rfl⟩ | ⟨x, rfl, hlist⟩⟩ := FutexManager.wake_one_cases hfm
    · refine hout.congr id (fun hne => ?_) fun t' => ?_
      · obtain ⟨t', ht'⟩ := hout.exists_inside hne
        exact hout.val_ne_zero ht'
      · simp
    · have hx : w.phase x = .asleep := (hlisted.mem x).mp (by simp [hlist])
      have hne : x ≠ t := by
        rintro rfl
        exact absurd (hx.symm.trans ht) (by simp)
      refine hout.outside (t := x) (p := .exchanging) ?_ (by simp [Inside]) rfl ?_
      · simp [update_of_ne hne, Inside, hx]
      · exact started_singleton _ x
  | other fm hwaiters hlock => exact h

end Exclusion

/-! ## The list of the futex manager -/

section List

variable {addr : Nat} {w w' : LockWord} {t : Nat} {p : Phase}

theorem Listed.awake (h : Listed addr w) (ht : ¬ (w.phase t).Sleepy) (hp : ¬ p.Sleepy)
    (hfutexes : w'.futexes = w.futexes) (hphase : w'.phase = update w.phase t p) :
    Listed addr w' := by
  refine ⟨fun t' => ?_, ?_, fun t' ht' => ?_⟩
  · rw [hfutexes, h.mem, hphase]
    by_cases heq : t' = t
    · subst heq
      rw [update_self]
      exact iff_of_false (fun hno => ht (Or.inl hno)) (fun hno => hp (Or.inl hno))
    · rw [update_of_ne heq]
  · rw [hfutexes]
    exact h.nodup
  · rw [hfutexes]
    rw [hphase] at ht'
    by_cases heq : t' = t
    · subst heq
      rw [update_self] at ht'
      exact absurd (Or.inr ht') hp
    · rw [update_of_ne heq] at ht'
      exact h.locked t' ht'

theorem Listed.move (h : Listed addr w) (hmove : Move addr w w') : Listed addr w' := by
  cases hmove with
  | acquire t ht hval => exact h.awake (by simp [Sleepy, ht]) (by simp [Sleepy]) rfl rfl
  | contend t p ht hp =>
    refine h.awake (by simp [Sleepy, ht]) ?_ rfl rfl
    rcases hp with rfl | rfl <;> simp [Sleepy]
  | exchange t ht =>
    refine h.awake (by simp [Sleepy, ht]) ?_ rfl rfl
    split_ifs <;> simp [Sleepy]
  | compare t fm sleep ht hfm =>
    obtain ⟨hfree, ⟨-, rfl, rfl⟩ | ⟨-, rfl, rfl⟩⟩ := FutexManager.waitCompare_cases hfm
    · exact h.awake (by simp [Sleepy, ht]) (by simp [Sleepy]) rfl rfl
    · refine ⟨fun t' => ?_, h.nodup, fun t' ht' => ?_⟩
      · refine (h.mem t').trans ?_
        by_cases heq : t' = t
        · subst heq
          simp [ht]
        · simp [update_of_ne heq]
      · by_cases heq : t' = t
        · rw [heq]
        · have hno := h.locked t' (by simpa [update_of_ne heq] using ht')
          rw [hfree] at hno
          exact absurd hno (by simp)
  | sleep t ht =>
    have hlock := h.locked t ht
    refine ⟨fun t' => ?_, ?_, fun t' ht' => ?_⟩
    · rw [FutexManager.waiters_waitInsert, List.mem_cons, h.mem]
      by_cases heq : t' = t
      · simp [heq]
      · simp [heq]
    · rw [FutexManager.waiters_waitInsert]
      refine List.nodup_cons.mpr ⟨fun hmem => ?_, h.nodup⟩
      exact absurd (((h.mem t).mp hmem).symm.trans ht) (by simp)
    · have heq : t' ≠ t := by
        rintro rfl
        simp at ht'
      have hno := h.locked t' (by simpa [update_of_ne heq] using ht')
      rw [hlock, Option.some.injEq] at hno
      exact absurd hno.symm heq
  | subtract t ht =>
    refine h.awake (by simp [Sleepy, ht]) ?_ rfl rfl
    split_ifs <;> simp [Sleepy]
  | store t ht => exact h.awake (by simp [Sleepy, ht]) (by simp [Sleepy]) rfl rfl
  | wake t fm tasks ht hfm =>
    have hout : Listed addr { w with phase := update w.phase t .out } :=
      h.awake (by simp [Sleepy, ht]) (by simp [Sleepy]) rfl rfl
    obtain ⟨hfree, hfree', ⟨hnone, hnone', rfl⟩ | ⟨x, rfl, hlist⟩⟩ :=
      FutexManager.wake_one_cases hfm
    · rw [started_nil]
      refine ⟨fun t' => ?_, by simp [hnone'], fun t' ht' => ?_⟩
      · have hmem := hout.mem t'
        rw [hnone] at hmem
        rwa [hnone']
      · have hno := hout.locked t' ht'
        rw [hfree] at hno
        exact absurd hno (by simp)
    · have hnodup := h.nodup
      rw [hlist, List.nodup_cons] at hnodup
      refine ⟨fun t' => ?_, hnodup.2, fun t' ht' => ?_⟩
      · rw [started_singleton]
        have hmem := hout.mem t'
        by_cases heq : t' = x
        · subst heq
          simp [hnodup.1]
        · simpa [hlist, heq] using hmem
      · rw [started_singleton] at ht'
        have heq : t' ≠ x := by
          rintro rfl
          simp at ht'
        have hno := hout.locked t' (by simpa [update_of_ne heq] using ht')
        rw [hfree] at hno
        exact absurd hno (by simp)
  | other fm hwaiters hlock =>
    refine ⟨fun t => ?_, ?_, fun t ht => ?_⟩
    · rw [hwaiters]
      exact h.mem t
    · rw [hwaiters]
      exact h.nodup
    · rw [hlock t ht]
      exact h.locked t ht

end List

/-! ## No forgotten task -/

section Wakeups

variable {addr : Nat} {w w' : LockWord} {t : Nat} {p : Phase}

/-- A task that is not on its way and does not hold the lock changes its phase. -/
theorem Due.keep (h : Due w) (ht : w.phase t ≠ .held) (hway : ¬ (w.phase t).OnTheWay)
    (hval : w'.val = w.val) (hphase : w'.phase = update w.phase t p) : Due w' := by
  have hne : ∀ t', w.phase t' ≠ w.phase t → w'.phase t' = w.phase t' := by
    intro t' hno
    rw [hphase, update_of_ne]
    rintro rfl
    exact hno rfl
  rcases h with ⟨t', hheld, htwo⟩ | ⟨t', honway⟩
  · refine Or.inl ⟨t', ?_, hval.trans htwo⟩
    rw [hne t' fun heq => ht (heq.symm.trans hheld), hheld]
  · refine Or.inr ⟨t', ?_⟩
    rw [hne t' fun heq => hway (heq ▸ honway)]
    exact honway

theorem Exclusive.due (h : Exclusive w) (hval : w.val = 2) : Due w := by
  obtain ⟨t, ht⟩ := h.exists_inside (by omega)
  rcases ht with hheld | hreleasing
  · exact Or.inl ⟨t, hheld, hval⟩
  · exact Or.inr ⟨t, Or.inr (Or.inl hreleasing)⟩

theorem Due.of_update (hp : p.OnTheWay) (hphase : w'.phase = update w.phase t p) :
    Due w' := by
  refine Or.inr ⟨t, ?_⟩
  rw [hphase, update_self]
  exact hp

theorem sleepy_of_update {t' : Nat} (hp : ¬ p.Sleepy)
    (ht' : (update w.phase t p t').Sleepy) : (w.phase t').Sleepy := by
  by_cases heq : t' = t
  · subst heq
    rw [update_self] at ht'
    exact absurd ht' hp
  · rwa [update_of_ne heq] at ht'

theorem LockOk.owed_move (h : LockOk addr w) (hmove : Move addr w w') : Owed w' := by
  have hexclusive := h.exclusive.move h.listed hmove
  cases hmove with
  | acquire t ht hval =>
    intro t' ht'
    rcases h.owed t' (sleepy_of_update (by simp [Sleepy]) ht') with ⟨_, -, htwo⟩ | ⟨x, hx⟩
    · omega
    · refine Or.inr ⟨x, ?_⟩
      have hne : x ≠ t := by
        rintro rfl
        simp [OnTheWay, ht] at hx
      simpa [update_of_ne hne] using hx
  | contend t p ht hp =>
    intro t' ht'
    have hold := h.owed t' (sleepy_of_update (by rcases hp with rfl | rfl <;> simp [Sleepy]) ht')
    exact hold.keep (by simp [ht]) (by simp [OnTheWay, ht]) rfl rfl
  | exchange t ht => exact fun _ _ => hexclusive.due rfl
  | compare t fm sleep ht hfm =>
    obtain ⟨-, ⟨-, rfl, rfl⟩ | ⟨hval, rfl, rfl⟩⟩ := FutexManager.waitCompare_cases hfm
    · exact fun _ _ => Due.of_update (Or.inl rfl) rfl
    · exact fun _ _ => hexclusive.due hval
  | sleep t ht =>
    intro _ _
    exact (h.owed t (Or.inr ht)).keep (by simp [ht]) (by simp [OnTheWay, ht]) rfl rfl
  | subtract t ht =>
    rcases h.exclusive.val_ne_zero (Or.inl ht) with hval | hval
    · intro t' ht'
      rcases h.owed t' (sleepy_of_update (by simp [Sleepy, hval]) ht') with ⟨_, -, htwo⟩ | ⟨x, hx⟩
      · omega
      · refine Or.inr ⟨x, ?_⟩
        have hne : x ≠ t := by
          rintro rfl
          simp [OnTheWay, ht] at hx
        simpa [update_of_ne hne] using hx
    · refine fun _ _ => Due.of_update (w := w) (t := t) (p := .releasing) (Or.inr (Or.inl rfl)) ?_
      simp [hval]
  | store t ht => exact fun _ _ => Due.of_update (Or.inr (Or.inr rfl)) rfl
  | wake t fm tasks ht hfm =>
    obtain ⟨hfree, -, ⟨hnone, -, rfl⟩ | ⟨x, rfl, -⟩⟩ := FutexManager.wake_one_cases hfm
    · -- Nobody sleeps, and nobody is about to, since the lock of the manager is free.
      intro t' ht'
      exfalso
      have hsleepy : (w.phase t').Sleepy :=
        sleepy_of_update (t := t) (p := .out) (by simp [Sleepy]) (by simpa using ht')
      rcases hsleepy with hasleep | hcompared
      · have hmem := (h.listed.mem t').mpr hasleep
        rw [hnone] at hmem
        exact absurd hmem (by simp)
      · have hlock := h.listed.locked t' hcompared
        rw [hfree] at hlock
        exact absurd hlock (by simp)
    · exact fun _ _ => Or.inr ⟨x, by simp [started, OnTheWay]⟩
  | other fm hwaiters hlock => exact h.owed

end Wakeups

theorem LockOk.move {addr : Nat} {w w' : LockWord} (h : LockOk addr w) (hmove : Move addr w w') :
    LockOk addr w' :=
  ⟨h.exclusive.move h.listed hmove, h.listed.move hmove, h.owed_move hmove⟩

/-- Tasks that were outside are put to sleep on the word by a requeue, which also
starts one task. -/
theorem LockOk.requeue {addr x : Nat} {w : LockWord} {ts : List Nat} {fm : FutexManager}
    (h : LockOk addr w) (hout : ∀ t ∈ x :: ts, w.phase t = .out) (hnodup : (x :: ts).Nodup)
    (hwaiters : fm.waiters addr = ts.reverse ++ w.futexes.waiters addr)
    (hfree : w.futexes.ivLock = none) :
    LockOk addr ⟨w.val, fm,
      fun t => if t = x then .exchanging else if t ∈ ts then .asleep else w.phase t⟩ := by
  have hx := hout x List.mem_cons_self
  have hts : ∀ t ∈ ts, w.phase t = .out := fun t ht => hout t (List.mem_cons_of_mem x ht)
  have hnotx : x ∉ ts := (List.nodup_cons.mp hnodup).1
  refine ⟨?_, ⟨fun t => ?_, ?_, fun t ht => ?_⟩, ?_⟩
  · refine h.exclusive.congr id (fun hne => ?_) fun t => ?_
    · obtain ⟨t', ht'⟩ := h.exclusive.exists_inside hne
      exact h.exclusive.val_ne_zero ht'
    · show (if t = x then _ else if t ∈ ts then _ else w.phase t).Inside ↔ (w.phase t).Inside
      split_ifs with h1 h2
      · simp [Inside, h1, hx]
      · simp [Inside, hts t h2]
      · rfl
  · show t ∈ fm.waiters addr ↔ (if t = x then _ else if t ∈ ts then _ else w.phase t) = .asleep
    rw [hwaiters, List.mem_append, List.mem_reverse, h.listed.mem]
    split_ifs with h1 h2
    · simp [h1, hx, hnotx]
    · simp [h2]
    · simp [h2]
  · rw [hwaiters, List.nodup_append]
    refine ⟨List.nodup_reverse.mpr (List.nodup_cons.mp hnodup).2, h.listed.nodup, ?_⟩
    intro t ht t' ht' heq
    have hasleep := (h.listed.mem t').mp ht'
    rw [← heq, hts t (List.mem_reverse.mp ht)] at hasleep
    exact absurd hasleep (by simp)
  · replace ht : (if t = x then Phase.exchanging else if t ∈ ts then .asleep else w.phase t)
        = .compared := ht
    split_ifs at ht
    have hlock := h.listed.locked t ht
    rw [hfree] at hlock
    exact absurd hlock (by simp)
  · intro _ _
    exact Or.inr ⟨x, by simp [OnTheWay]⟩

theorem LockOk.free {addr : Nat} {w : LockWord} (hval : w.val = 0)
    (hlist : w.futexes.waiters addr = []) (hphase : ∀ t, w.phase t = .out) : LockOk addr w := by
  refine ⟨Or.inl ⟨hval, ?_⟩, ⟨?_, ?_, ?_⟩, ?_⟩
  · simp [hphase, Inside]
  · simp [hlist, hphase]
  · simp [hlist]
  · simp [hphase]
  · intro t ht
    simp [hphase, Sleepy] at ht

end Hostboot.Sync
