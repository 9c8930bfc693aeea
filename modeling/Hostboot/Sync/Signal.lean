import Mathlib
import Hostboot.Sync.Condition

/-!
# What a signal and a broadcast do to the waiting tasks

A task waits from the step that releases the mutex in `sync_cond_wait` to the step
that wakes it.  A signal issued in between lets at least one waiting task return,
and a broadcast lets every waiting task return.  A task that has not compared
the sequence number yet finds it changed; this is where it counts that the number
does not come back to the loaded value.

A broadcast starts one task and moves the others to the futex of the mutex without
marking the mutex as contended.  The started task does that with its exchange,
so the moved tasks are not forgotten.
-/

namespace Hostboot.Sync.Cond

open Hostboot.Lib Phase
open Function (update update_of_ne update_self)

/-- The task has released the mutex in `sync_cond_wait` and was not woken. -/
def Waiter (s : State) (t : Nat) : Prop :=
  (∃ seq, s.ctl t = .unlocking seq ∧ (s.base.tasks t = .out ∨ s.base.tasks t = .waking)) ∨
    s.ctl t = .settling ∨ s.ctl t = .sleeping

/-- The task does not sleep on the condition variable until it calls
`sync_cond_wait` again. -/
def Returns (A : Addrs) (s : State) (t : Nat) : Prop :=
  ∀ ops s', Run (FineStep A) s ops s' → Op.condWait t ∉ ops →
    s'.ctl t ≠ .settling ∧ s'.ctl t ≠ .sleeping

/-- A task that is not asleep and for which the sequence number has changed. -/
def Released (s : State) (t : Nat) : Prop :=
  (∀ seq, s.ctl t ≠ .associating seq) ∧ s.ctl t ≠ .settling ∧ s.ctl t ≠ .sleeping ∧
    ∀ seq, s.ctl t = .unlocking seq → 0 < s.since t

/-! ## Steps and the code of a task -/

section Frame

variable {A : Addrs} {s s' : State} {op : Op} {t : Nat}

theorem CondOk.ctl_of_ne (h : CondOk A s) (hstep : FineStep A s op s') (ht : op.task ≠ some t) :
    (s'.ctl t = s.ctl t ∧ s.since t ≤ s'.since t) ∨
      (s.ctl t = .sleeping ∧ (s'.ctl t).Free ∧ ∃ t', op = .condWake t') := by
  have hne : ∀ t', op.task = some t' → t ≠ t' := by
    rintro t' heq rfl
    exact ht heq
  obtain ⟨⟨hallowed, hexec⟩, -⟩ := hstep
  cases op with
  | mutex op =>
    obtain ⟨b, -, rfl⟩ := Option.map_eq_some_iff.mp hexec
    exact Or.inl ⟨rfl, Nat.le_refl _⟩
  | condWait t' =>
    obtain rfl := Option.some.inj hexec
    refine Or.inl ⟨update_of_ne (hne t' rfl) _ _, Nat.le_of_eq ?_⟩
    exact (update_of_ne (hne t' rfl) _ _).symm
  | associate t' =>
    replace hexec : s.associate A t' = some s' := hexec
    obtain ⟨seq, hctl⟩ := hallowed
    simp only [State.associate, hctl] at hexec
    split_ifs at hexec
    all_goals
      obtain rfl := Option.some.inj hexec
      exact Or.inl ⟨update_of_ne (hne t' rfl) _ _, Nat.le_refl _⟩
  | pause t' =>
    replace hexec : s.pause t' = some s' := hexec
    obtain ⟨-, seq, hctl⟩ := hallowed
    simp only [State.pause, hctl] at hexec
    split at hexec
    · exact absurd hexec (by simp)
    all_goals
      obtain rfl := Option.some.inj hexec
      exact Or.inl ⟨update_of_ne (hne t' rfl) _ _, Nat.le_refl _⟩
  | settle t' =>
    obtain rfl := Option.some.inj hexec
    exact Or.inl ⟨update_of_ne (hne t' rfl) _ _, Nat.le_refl _⟩
  | signal t' =>
    obtain rfl := Option.some.inj hexec
    exact Or.inl ⟨update_of_ne (hne t' rfl) _ _, Nat.le_succ _⟩
  | broadcast t' =>
    obtain rfl := Option.some.inj hexec
    unfold State.syncCondBroadcast
    split
    · exact Or.inl ⟨rfl, Nat.le_refl _⟩
    · exact Or.inl ⟨update_of_ne (hne t' rfl) _ _, Nat.le_succ _⟩
  | condWake t' =>
    have hrelease : ∃ fm tasks moved, s' = (s.setCtl t' .idle).release fm tasks moved ∧
        ∀ x ∈ tasks ++ moved, x ∈ s.base.futexes.waiters A.sequence := by
      rcases hallowed with hctl | ⟨m, hctl⟩
      · obtain ⟨-, -, fm, tasks, rfl, htasks⟩ := h.signal_cases hctl hexec
        refine ⟨fm, tasks, [], rfl, fun x hx => ?_⟩
        rw [htasks, List.append_nil] at hx
        exact List.mem_of_mem_take hx
      · obtain ⟨-, -, fm, tasks, moved, rfl, hlist⟩ := h.broadcast_cases hctl hexec
        exact ⟨fm, tasks, moved, rfl, fun x hx => hlist ▸ hx⟩
    obtain ⟨fm, tasks, moved, rfl, hmem⟩ := hrelease
    by_cases htasks : t ∈ tasks
    · refine Or.inr ⟨(h.mem t).mp (hmem t (List.mem_append_left _ htasks)), ?_, t', rfl⟩
      simp [State.release, htasks, Ctl.Free]
    by_cases hmoved : t ∈ moved
    · refine Or.inr ⟨(h.mem t).mp (hmem t (List.mem_append_right _ hmoved)), ?_, t', rfl⟩
      simp [State.release, htasks, hmoved, Ctl.Free]
    refine Or.inl ⟨?_, Nat.le_refl _⟩
    simp [State.release, State.setCtl, htasks, hmoved, hne t' rfl]

theorem CondOk.released_step (h : CondOk A s) (hstep : FineStep A s op s')
    (hop : op ≠ .condWait t) (ht : Released s t) : Released s' t := by
  by_cases htask : op.task = some t
  · obtain ⟨hassoc, hsettling, hsleeping, hunlocking⟩ := ht
    obtain ⟨⟨hallowed, hexec⟩, -⟩ := hstep
    cases op with
    | mutex op =>
      obtain ⟨b, -, rfl⟩ := Option.map_eq_some_iff.mp hexec
      exact ⟨hassoc, hsettling, hsleeping, hunlocking⟩
    | condWait t' =>
      obtain rfl : t' = t := Option.some.inj htask
      exact absurd rfl hop
    | associate t' =>
      obtain rfl : t' = t := Option.some.inj htask
      obtain ⟨seq, hctl⟩ := hallowed
      exact absurd hctl (hassoc seq)
    | pause t' =>
      obtain rfl : t' = t := Option.some.inj htask
      replace hexec : s.pause t' = some s' := hexec
      obtain ⟨-, seq, hctl⟩ := hallowed
      have hok := h.task t'
      unfold TaskOk at hok
      rw [hctl] at hok
      obtain ⟨-, hseq, hsince, heq, -⟩ := hok
      have hpos := hunlocking seq hctl
      have hne : s.sequence ≠ seq := by omega
      simp only [State.pause, hctl] at hexec
      cases hfm : s.base.futexes.waitCompare t' s.sequence seq with
      | none =>
        simp only [hfm] at hexec
        exact absurd hexec (by simp)
      | some pair =>
        obtain ⟨fm, sleep⟩ := pair
        obtain ⟨-, ⟨-, rfl, rfl⟩ | ⟨hval, -⟩⟩ := FutexManager.waitCompare_cases hfm
        · simp only [hfm] at hexec
          obtain rfl := Option.some.inj hexec
          simp [Released, State.setCtl]
        · exact absurd hval hne
    | settle t' =>
      obtain rfl : t' = t := Option.some.inj htask
      exact absurd hallowed hsettling
    | signal t' =>
      obtain rfl : t' = t := Option.some.inj htask
      obtain rfl := Option.some.inj hexec
      simp [Released, State.syncCondSignal, State.setCtl]
    | broadcast t' =>
      obtain rfl : t' = t := Option.some.inj htask
      obtain rfl := Option.some.inj hexec
      unfold State.syncCondBroadcast
      split
      · exact ⟨hassoc, hsettling, hsleeping, hunlocking⟩
      · simp [Released, State.setCtl]
    | condWake t' =>
      obtain rfl : t' = t := Option.some.inj htask
      have hidle : (s'.ctl t').Free := by
        rcases hallowed with hctl | ⟨m, hctl⟩
        · obtain ⟨-, -, fm, tasks, rfl, -⟩ := h.signal_cases hctl hexec
          by_cases hmem : t' ∈ tasks
          · simp [State.release, hmem, Ctl.Free]
          · simp [State.release, State.setCtl, hmem, Ctl.Free]
        · obtain ⟨-, -, fm, tasks, moved, rfl, -⟩ := h.broadcast_cases hctl hexec
          by_cases hmem : t' ∈ tasks
          · simp [State.release, hmem, Ctl.Free]
          · by_cases hmoved : t' ∈ moved
            · simp [State.release, hmem, hmoved, Ctl.Free]
            · simp [State.release, State.setCtl, hmem, hmoved, Ctl.Free]
      rcases hidle with hc | hc
      · simp [Released, hc]
      · simp [Released, hc]
  · rcases h.ctl_of_ne hstep htask with ⟨hctl, hsince⟩ | ⟨hsleeping, -⟩
    · obtain ⟨hassoc, hsettling, hsleeping, hunlocking⟩ := ht
      unfold Released
      rw [hctl]
      refine ⟨hassoc, hsettling, hsleeping, fun seq hseq => ?_⟩
      exact Nat.lt_of_lt_of_le (hunlocking seq hseq) hsince
    · exact absurd hsleeping ht.2.2.1

end Frame

theorem CondOk.returns {A : Addrs} {s : State} {t : Nat} (h : CondOk A s) (ht : Released s t) :
    Returns A s t := by
  intro ops s' hrun
  have hreleased : Op.condWait t ∉ ops → Released s' t := by
    induction hrun with
    | nil => exact fun _ => ht
    | snoc hrun hstep ih =>
      intro hno
      refine (h.run hrun).released_step hstep (fun heq => ?_) (ih fun hmem => ?_)
      · exact hno (by simp [heq])
      · exact hno (List.mem_append_left _ hmem)
  intro hno
  exact ⟨(hreleased hno).2.1, (hreleased hno).2.2.1⟩

/-! ## While a task signals

From the increment to the wake the task is inside the mutex, so no other task can
begin to wait. -/

section Signal

variable {A : Addrs} {s s' : State} {op : Op} {t : Nat}

/-- What holds from the increment of task `t`, made in a state with the waiting
tasks `W`, to its wake. -/
structure During (W : Nat → Prop) (t : Nat) (c : Ctl) (s : State) : Prop where
  ctl : s.ctl t = c
  waiters : ∀ w, Waiter s w → W w
  since : ∀ w seq, s.ctl w = .unlocking seq → 0 < s.since w

theorem CondOk.held_of_signalling {c : Ctl} (h : CondOk A s) (hctl : s.ctl t = c)
    (hc : c = .signalling ∨ ∃ m, c = .broadcasting m) : s.base.tasks t = .held := by
  have hok := h.task t
  unfold TaskOk at hok
  rw [hctl] at hok
  rcases hc with rfl | ⟨m, rfl⟩
  · exact hok
  · exact hok.1

/-- A step of another task leaves the mutex phase of a task alone that is unlocking
in `sync_cond_wait`. -/
theorem CondOk.tasks_of_ne {w seq : Nat} (h : CondOk A s) (hstep : FineStep A s op s')
    (htask : op.task ≠ some w) (hctl : s.ctl w = .unlocking seq) :
    s'.base.tasks w = s.base.tasks w := by
  have hne : ∀ t', op.task = some t' → w ≠ t' := by
    rintro t' heq rfl
    exact htask heq
  have hok := h.task w
  unfold TaskOk at hok
  rw [hctl] at hok
  have hnot : w ∉ s.base.futexes.waiters A.sequence := fun hmem =>
    absurd (hctl.symm.trans ((h.mem w).mp hmem)) (by simp)
  obtain ⟨⟨hallowed, hexec⟩, -⟩ := hstep
  cases op with
  | mutex op =>
    obtain ⟨b, hb, rfl⟩ := Option.map_eq_some_iff.mp hexec
    rcases Plain.Step.tasks_of_ne ⟨hallowed.1, hb⟩ h.lock htask with hsame | ⟨hasleep, -⟩
    · exact hsame
    · rw [hasleep] at hok
      exact absurd hok.1 (by simp)
  | condWait t' =>
    obtain rfl := Option.some.inj hexec
    rfl
  | associate t' =>
    replace hexec : s.associate A t' = some s' := hexec
    obtain ⟨seq', hctl'⟩ := hallowed
    simp only [State.associate, hctl'] at hexec
    split_ifs at hexec
    all_goals
      obtain rfl := Option.some.inj hexec
      rfl
  | pause t' =>
    replace hexec : s.pause t' = some s' := hexec
    obtain ⟨-, seq', hctl'⟩ := hallowed
    simp only [State.pause, hctl'] at hexec
    split at hexec
    · exact absurd hexec (by simp)
    · obtain rfl := Option.some.inj hexec
      rfl
    · obtain rfl := Option.some.inj hexec
      exact update_of_ne (hne t' rfl) _ _
  | settle t' =>
    obtain rfl := Option.some.inj hexec
    rfl
  | signal t' =>
    obtain rfl := Option.some.inj hexec
    rfl
  | broadcast t' =>
    obtain rfl := Option.some.inj hexec
    unfold State.syncCondBroadcast
    split
    · rfl
    · rfl
  | condWake t' =>
    rcases hallowed with hctl' | ⟨m, hctl'⟩
    · obtain ⟨-, -, fm, tasks, rfl, htasks⟩ := h.signal_cases hctl' hexec
      have hmem : w ∉ tasks := by
        rw [htasks]
        exact fun hmem => hnot (List.mem_of_mem_take hmem)
      simp [State.release, State.setCtl, hmem]
    · obtain ⟨-, -, fm, tasks, moved, rfl, hlist⟩ := h.broadcast_cases hctl' hexec
      rw [← hlist, List.mem_append, not_or] at hnot
      simp [State.release, State.setCtl, hnot.1, hnot.2]

theorem CondOk.waiter_of_step {w : Nat} (h : CondOk A s) (hstep : FineStep A s op s')
    (hw : Waiter s' w) : Waiter s w ∨ ((s.base.tasks w).Inside ∧ op.task = some w) := by
  by_cases htask : op.task = some w
  · obtain ⟨⟨hallowed, hexec⟩, -⟩ := hstep
    cases op with
    | mutex op =>
      obtain ⟨b, hb, rfl⟩ := Option.map_eq_some_iff.mp hexec
      rcases hw with ⟨seq, hctl, -⟩ | hsettling | hsleeping
      · have hok := h.task w
        unfold TaskOk at hok
        rw [show s.ctl w = .unlocking seq from hctl] at hok
        rcases hok.1 with ht | ht | ht | ht
        · exact Or.inr ⟨Or.inl ht, htask⟩
        · exact Or.inr ⟨Or.inr ht, htask⟩
        · exact Or.inl (Or.inl ⟨seq, hctl, Or.inr ht⟩)
        · exact Or.inl (Or.inl ⟨seq, hctl, Or.inl ht⟩)
      · exact Or.inl (Or.inr (Or.inl hsettling))
      · exact Or.inl (Or.inr (Or.inr hsleeping))
    | condWait t' =>
      obtain rfl : t' = w := Option.some.inj htask
      exact Or.inr ⟨Or.inl hallowed.1, rfl⟩
    | associate t' =>
      obtain rfl : t' = w := Option.some.inj htask
      obtain ⟨seq, hctl⟩ := hallowed
      have hok := h.task t'
      unfold TaskOk at hok
      rw [hctl] at hok
      exact Or.inr ⟨Or.inl hok.1, rfl⟩
    | pause t' =>
      obtain rfl : t' = w := Option.some.inj htask
      obtain ⟨hout, seq, hctl⟩ := hallowed
      exact Or.inl (Or.inl ⟨seq, hctl, Or.inl hout⟩)
    | settle t' =>
      obtain rfl : t' = w := Option.some.inj htask
      exact Or.inl (Or.inr (Or.inl hallowed))
    | signal t' =>
      obtain rfl : t' = w := Option.some.inj htask
      exact Or.inr ⟨Or.inl hallowed.1, rfl⟩
    | broadcast t' =>
      obtain rfl : t' = w := Option.some.inj htask
      exact Or.inr ⟨Or.inl hallowed.1, rfl⟩
    | condWake t' =>
      obtain rfl : t' = w := Option.some.inj htask
      refine Or.inr ⟨Or.inl (h.held_of_signalling rfl ?_), rfl⟩
      exact hallowed
  · rcases h.ctl_of_ne hstep htask with ⟨hctl, -⟩ | ⟨hsleeping, -⟩
    · left
      rcases hw with ⟨seq, hseq, hphase⟩ | hsettling | hsleeping
      · rw [hctl] at hseq
        rw [h.tasks_of_ne hstep htask hseq] at hphase
        exact Or.inl ⟨seq, hseq, hphase⟩
      · exact Or.inr (Or.inl (hctl.symm.trans hsettling))
      · exact Or.inr (Or.inr (hctl.symm.trans hsleeping))
    · exact Or.inl (Or.inr (Or.inr hsleeping))

theorem CondOk.during_step {W : Nat → Prop} {c : Ctl} (h : CondOk A s)
    (hc : c = .signalling ∨ ∃ m, c = .broadcasting m) (hduring : During W t c s)
    (hstep : FineStep A s op s') (hop : op.task ≠ some t) : During W t c s' := by
  have hheld := h.held_of_signalling hduring.ctl hc
  have hother : ∀ w, op.task = some w → ¬ (s.base.tasks w).Inside := by
    intro w hw hin
    obtain rfl : w = t := h.lock.exclusive.unique hin (Or.inl hheld)
    exact hop hw
  refine ⟨?_, fun w hw => ?_, fun w seq hseq => ?_⟩
  · rcases h.ctl_of_ne hstep hop with ⟨hctl, -⟩ | ⟨hsleeping, -⟩
    · exact hctl.trans hduring.ctl
    · rw [hduring.ctl] at hsleeping
      rcases hc with rfl | ⟨m, rfl⟩
      · exact absurd hsleeping (by simp)
      · exact absurd hsleeping (by simp)
  · rcases h.waiter_of_step hstep hw with hold | ⟨hin, htask⟩
    · exact hduring.waiters w hold
    · exact absurd hin (hother w htask)
  · by_cases htask : op.task = some w
    · -- A step of a task outside does not lead to the unlock of `sync_cond_wait`.
      have hout := hother w htask
      obtain ⟨⟨hallowed, hexec⟩, -⟩ := hstep
      cases op with
      | mutex op =>
        obtain ⟨b, -, rfl⟩ := Option.map_eq_some_iff.mp hexec
        exact hduring.since w seq hseq
      | condWait t' =>
        obtain rfl : t' = w := Option.some.inj htask
        exact absurd (Or.inl hallowed.1) hout
      | associate t' =>
        obtain rfl : t' = w := Option.some.inj htask
        obtain ⟨seq', hctl⟩ := hallowed
        have hok := h.task t'
        unfold TaskOk at hok
        rw [hctl] at hok
        exact absurd (Or.inl hok.1) hout
      | pause t' =>
        obtain rfl : t' = w := Option.some.inj htask
        replace hexec : s.pause t' = some s' := hexec
        obtain ⟨-, seq', hctl⟩ := hallowed
        simp only [State.pause, hctl] at hexec
        split at hexec
        · exact absurd hexec (by simp)
        all_goals
          obtain rfl := Option.some.inj hexec
          simp [State.setCtl] at hseq
      | settle t' =>
        obtain rfl : t' = w := Option.some.inj htask
        obtain rfl := Option.some.inj hexec
        simp [State.settle, State.setCtl] at hseq
      | signal t' =>
        obtain rfl : t' = w := Option.some.inj htask
        exact absurd (Or.inl hallowed.1) hout
      | broadcast t' =>
        obtain rfl : t' = w := Option.some.inj htask
        exact absurd (Or.inl hallowed.1) hout
      | condWake t' =>
        obtain rfl : t' = w := Option.some.inj htask
        exact absurd (Or.inl (h.held_of_signalling rfl hallowed)) hout
    · rcases h.ctl_of_ne hstep htask with ⟨hctl, hsince⟩ | ⟨-, hfree, -⟩
      · rw [hctl] at hseq
        exact Nat.lt_of_lt_of_le (hduring.since w seq hseq) hsince
      · rcases hfree with hidle | hrequeued
        · exact absurd (hseq.symm.trans hidle) (by simp)
        · exact absurd (hseq.symm.trans hrequeued) (by simp)

theorem CondOk.during_run {W : Nat → Prop} {c : Ctl} {ops : List Op} (h : CondOk A s)
    (hc : c = .signalling ∨ ∃ m, c = .broadcasting m) (hduring : During W t c s)
    (hrun : Run (FineStep A) s ops s') (hops : ∀ op ∈ ops, op.task ≠ some t) :
    During W t c s' := by
  induction hrun with
  | nil => exact hduring
  | snoc hrun hstep ih =>
    refine (h.run hrun).during_step hc (ih fun op hop => ?_) hstep ?_
    · exact hops op (List.mem_append_left _ hop)
    · exact hops _ (by simp)

theorem During.of_increment {c : Ctl} (hc : c = .signalling ∨ ∃ m, c = .broadcasting m) :
    During (Waiter s) t c (s.increment.setCtl t c) := by
  refine ⟨update_self _ _ _, fun w hwaiter => ?_, fun w seq _ => Nat.succ_pos _⟩
  by_cases heq : w = t
  · subst heq
    rcases hc with rfl | ⟨m, rfl⟩
    · simp [Waiter, State.setCtl] at hwaiter
    · simp [Waiter, State.setCtl] at hwaiter
  · simpa [Waiter, State.setCtl, State.increment, heq] using hwaiter

/-- At the wake no task is about to sleep, and every task that is not asleep is
released. -/
theorem During.released {W : Nat → Prop} {c : Ctl} {w : Nat} {fm : FutexManager}
    {tasks moved : List Nat} (h : CondOk A s) (hheld : s.base.tasks t = .held)
    (hduring : During W t c s) (hfree : s.base.futexes.ivLock = none)
    (hw : s.ctl w = .sleeping → w ∈ tasks ++ moved) :
    Released ((s.setCtl t .idle).release fm tasks moved) w := by
  by_cases htasks : w ∈ tasks
  · simp [Released, State.release, htasks]
  by_cases hmoved : w ∈ moved
  · simp [Released, State.release, htasks, hmoved]
  by_cases heq : w = t
  · subst heq
    simp [Released, State.release, State.setCtl, htasks, hmoved]
  have hctl : ((s.setCtl t .idle).release fm tasks moved).ctl w = s.ctl w := by
    simp [State.release, State.setCtl, htasks, hmoved, heq]
  have hok := h.task w
  unfold TaskOk at hok
  unfold Released
  rw [hctl]
  refine ⟨fun seq hassoc => ?_, fun hsettling => ?_, fun hsleeping => ?_, hduring.since w⟩
  · rw [hassoc] at hok
    exact heq (h.lock.exclusive.unique (Or.inl hok.1) (Or.inl hheld))
  · rw [hsettling] at hok
    exact absurd (hok.2.2.1.symm.trans hfree) (by simp)
  · rcases List.mem_append.mp (hw hsleeping) with hmem | hmem
    · exact htasks hmem
    · exact hmoved hmem

variable {s1 s2 s3 : State} {ops : List Op} {w : Nat}

theorem CondOk.signal_returns (h : CondOk A s) (hsignal : FineStep A s (.signal t) s1)
    (hrun : Run (FineStep A) s1 ops s2) (hops : ∀ op ∈ ops, op.task ≠ some t)
    (hwake : FineStep A s2 (.condWake t) s3) (hw : Waiter s w) :
    ∃ w', Waiter s w' ∧ Returns A s3 w' := by
  have hs1 : s.syncCondSignal t = s1 := Option.some.inj hsignal.1.2
  have hok2 := (h.step hsignal).run hrun
  have hduring : During (Waiter s) t .signalling s2 := by
    refine (h.step hsignal).during_run (Or.inl rfl) ?_ hrun hops
    rw [← hs1]
    exact During.of_increment (Or.inl rfl)
  have hheld := hok2.held_of_signalling hduring.ctl (Or.inl rfl)
  obtain ⟨hfree, hok3, fm, tasks, rfl, htasks⟩ := hok2.signal_cases hduring.ctl hwake.1.2
  cases hlist : s2.base.futexes.waiters A.sequence with
  | nil =>
    -- Nobody sleeps: the waiting task finds a new sequence number.
    refine ⟨w, hw, hok3.returns (hduring.released hok2 hheld hfree fun hsleeping => ?_)⟩
    have hmem := (hok2.mem w).mpr hsleeping
    rw [hlist] at hmem
    exact absurd hmem (by simp)
  | cons x rest =>
    have hx : s2.ctl x = .sleeping := (hok2.mem x).mp (by rw [hlist]; exact List.mem_cons_self)
    refine ⟨x, hduring.waiters x (Or.inr (Or.inr hx)), hok3.returns ?_⟩
    refine hduring.released hok2 hheld hfree fun _ => ?_
    simp [htasks, hlist]

theorem CondOk.broadcast_returns (h : CondOk A s) (hbroadcast : FineStep A s (.broadcast t) s1)
    (hrun : Run (FineStep A) s1 ops s2) (hops : ∀ op ∈ ops, op.task ≠ some t)
    (hwake : FineStep A s2 (.condWake t) s3) (hw : Waiter s w) : Returns A s3 w := by
  have hmutex : s.condMutex = some A.mutex := by
    have hok := h.task w
    unfold TaskOk at hok
    rcases hw with ⟨seq, hctl, -⟩ | hctl | hctl
    · rw [hctl] at hok
      exact hok.2.2.2.2.1
    · rw [hctl] at hok
      exact hok.2.1
    · rw [hctl] at hok
      exact hok.2.1
  have hs1 : s.syncCondBroadcast t = s1 := Option.some.inj hbroadcast.1.2
  have hok2 := (h.step hbroadcast).run hrun
  have hduring : During (Waiter s) t (.broadcasting A.mutex) s2 := by
    refine (h.step hbroadcast).during_run (Or.inr ⟨A.mutex, rfl⟩) ?_ hrun hops
    rw [← hs1, State.syncCondBroadcast, hmutex]
    exact During.of_increment (Or.inr ⟨A.mutex, rfl⟩)
  have hheld := hok2.held_of_signalling hduring.ctl (Or.inr ⟨A.mutex, rfl⟩)
  obtain ⟨hfree, hok3, fm, tasks, moved, rfl, hlist⟩ :=
    hok2.broadcast_cases hduring.ctl hwake.1.2
  refine hok3.returns (hduring.released hok2 hheld hfree fun hsleeping => ?_)
  rw [hlist]
  exact (hok2.mem w).mpr hsleeping

end Signal

/-! ## Tasks on the futex of the mutex -/

/-- The task was moved to the futex of the mutex and sleeps on it. -/
def Requeued (s : State) (t : Nat) : Prop := s.ctl t = .requeued ∧ s.base.tasks t = .asleep

/-- A wake for the futex of the mutex is still to be performed.  A running task is on
its way to it, and in no continuation can all tasks be outside or asleep before
the task was woken. -/
structure WakeDue (A : Addrs) (s : State) (t : Nat) : Prop where
  onTheWay : ∃ t', (s.base.tasks t').OnTheWay
  performed : ∀ ops s', Run (FineStep A) s ops s' →
    (∀ t', s'.base.tasks t' = .out ∨ s'.base.tasks t' = .asleep) → s'.base.tasks t ≠ .asleep

theorem CondOk.due {A : Addrs} {s : State} {t : Nat} (h : CondOk A s)
    (ht : s.base.tasks t = .asleep) :
    (∃ t', s.base.tasks t' = .held ∧ s.base.mutex.ivVal = 2) ∨ WakeDue A s t := by
  rcases h.lock.owed t (Or.inl ht) with hheld | hway
  · exact Or.inl hheld
  · refine Or.inr ⟨hway, fun ops s' hrun hdone hasleep => ?_⟩
    have hnot : ∀ t', s'.base.tasks t' ≠ .held ∧ ¬ (s'.base.tasks t').OnTheWay := by
      intro t'
      rcases hdone t' with hphase | hphase
      · simp [hphase, OnTheWay]
      · simp [hphase, OnTheWay]
    rcases (h.run hrun).lock.owed t (Or.inl hasleep) with ⟨t', hheld, -⟩ | ⟨t', hway'⟩
    · exact (hnot t').1 hheld
    · exact (hnot t').2 hway'

/-- In every run in which the sequence number does not come back to a value that a
waiting task has loaded and not compared yet:

* a signal lets at least one task return that waited when the signal was issued;
* a broadcast lets every task return, or moves it to the futex of the mutex, that
  waited when the broadcast was issued;
* while a moved task sleeps, a task holds the mutex with the word at 2, or a wake is
  due. -/
theorem cond_of_run {A : Addrs} {futexes : FutexManager} {ops : List Op} {s : State}
    (hmutex : futexes.waiters A.mutex = []) (hsequence : futexes.waiters A.sequence = [])
    (hrun : Run (FineStep A) (State.init futexes) ops s) :
    (∀ t s1 ops' s2 s3, FineStep A s (.signal t) s1 → Run (FineStep A) s1 ops' s2 →
      (∀ op ∈ ops', op.task ≠ some t) → FineStep A s2 (.condWake t) s3 →
      ∀ w, Waiter s w → ∃ w', Waiter s w' ∧ Returns A s3 w') ∧
    (∀ t s1 ops' s2 s3, FineStep A s (.broadcast t) s1 → Run (FineStep A) s1 ops' s2 →
      (∀ op ∈ ops', op.task ≠ some t) → FineStep A s2 (.condWake t) s3 →
      ∀ w, Waiter s w → Returns A s3 w) ∧
    (∀ w, Requeued s w →
      (∃ t, s.base.tasks t = .held ∧ s.base.mutex.ivVal = 2) ∨ WakeDue A s w) := by
  have hok : CondOk A s := (CondOk.init hmutex hsequence).run hrun
  refine ⟨?_, ?_, ?_⟩
  · intro t s1 ops' s2 s3 hsignal hrun' hops hwake w hw
    exact hok.signal_returns hsignal hrun' hops hwake hw
  · intro t s1 ops' s2 s3 hbroadcast hrun' hops hwake w hw
    exact hok.broadcast_returns hbroadcast hrun' hops hwake hw
  · intro w hw
    exact hok.due hw.2

/-- A run with two waiting tasks, one asleep and one before `futex_wait`, and a task
that has issued nothing yet. -/
theorem cond_of_run_two_waiters :
    ∃ s, Run (FineStep ⟨8, 16, by decide⟩) (State.init ⟨none, []⟩)
        [.mutex (.lock 0), .condWait 0, .associate 0, .mutex (.unlock 0), .pause 0, .settle 0,
          .mutex (.lock 1), .condWait 1, .associate 1, .mutex (.unlock 1), .mutex (.lock 2)] s ∧
      Waiter s 0 ∧ Waiter s 1 ∧
      (∀ t s1 ops' s2 s3, FineStep ⟨8, 16, by decide⟩ s (.broadcast t) s1 →
        Run (FineStep ⟨8, 16, by decide⟩) s1 ops' s2 → (∀ op ∈ ops', op.task ≠ some t) →
        FineStep ⟨8, 16, by decide⟩ s2 (.condWake t) s3 →
        ∀ w, Waiter s w → Returns ⟨8, 16, by decide⟩ s3 w) := by
  have hrun : ∃ s, Run (FineStep ⟨8, 16, by decide⟩) (State.init ⟨none, []⟩)
      [.mutex (.lock 0), .condWait 0, .associate 0, .mutex (.unlock 0), .pause 0, .settle 0,
        .mutex (.lock 1), .condWait 1, .associate 1, .mutex (.unlock 1), .mutex (.lock 2)] s ∧
      Waiter s 0 ∧ Waiter s 1 := by
    refine ⟨_, .cons ⟨⟨⟨rfl, Or.inl rfl⟩, rfl⟩, trivial⟩
      (.cons ⟨⟨⟨rfl, Or.inl rfl, by decide⟩, rfl⟩, trivial⟩
      (.cons ⟨⟨⟨0, rfl⟩, rfl⟩, trivial⟩
      (.cons ⟨⟨⟨rfl, Or.inr ⟨0, rfl⟩⟩, rfl⟩, trivial⟩
      (.cons ⟨⟨⟨rfl, 0, rfl⟩, rfl⟩, trivial⟩
      (.cons ⟨⟨rfl, rfl⟩, trivial⟩
      (.cons ⟨⟨⟨rfl, Or.inl rfl⟩, rfl⟩, trivial⟩
      (.cons ⟨⟨⟨rfl, Or.inl rfl, by decide⟩, rfl⟩, trivial⟩
      (.cons ⟨⟨⟨0, rfl⟩, rfl⟩, trivial⟩
      (.cons ⟨⟨⟨rfl, Or.inr ⟨0, rfl⟩⟩, rfl⟩, trivial⟩
      (.cons ⟨⟨⟨rfl, Or.inl rfl⟩, rfl⟩, trivial⟩ .nil)))))))))), ?_, ?_⟩
    · exact Or.inr (Or.inr rfl)
    · exact Or.inl ⟨0, rfl, Or.inl rfl⟩
  obtain ⟨s, hrun, h0, h1⟩ := hrun
  exact ⟨s, hrun, h0, h1, (cond_of_run rfl rfl hrun).2.1⟩

/-! ## The sequence number comes back

Task 0 has released the mutex in `sync_cond_wait` with the sequence number 0 loaded,
and task 1 signals again and again. -/

/-- The state after `k` signals, with the word of the mutex and the places of task 1. -/
def signalled (k val : Nat) (p : Phase) (c : Ctl) : State where
  base := ⟨⟨val, 0, 0, false⟩, ⟨none, []⟩, update (fun _ => .out) 1 p⟩
  condMutex := some 8
  sequence := k % 2 ^ 64
  ctl := update (update (fun _ => .idle) 0 (.unlocking 0)) 1 c
  since := fun _ => k

section Wrap

variable (k : Nat)

theorem signalled_lock :
    Step ⟨8, 16, by decide⟩ (signalled k 0 .out .idle) (.mutex (.lock 1))
      (signalled k 1 .held .idle) := by
  refine ⟨⟨rfl, Or.inl rfl⟩, ?_⟩
  simp [State.exec, Plain.State.exec, Plain.State.mutexLock, Plain.State.setVal,
    Plain.State.setTask, signalled]

theorem signalled_signal :
    Step ⟨8, 16, by decide⟩ (signalled k 1 .held .idle) (.signal 1)
      (signalled (k + 1) 1 .held .signalling) := by
  refine ⟨⟨rfl, Or.inl rfl⟩, ?_⟩
  simp [State.exec, State.syncCondSignal, State.increment, State.setCtl, signalled, add64]

theorem signalled_condWake :
    Step ⟨8, 16, by decide⟩ (signalled k 1 .held .signalling) (.condWake 1)
      (signalled k 1 .held .idle) := by
  refine ⟨Or.inl rfl, ?_⟩
  simp [State.exec, State.condWake, State.release, State.setCtl, signalled, FutexManager.wake,
    FutexManager.start]

theorem signalled_unlock :
    Step ⟨8, 16, by decide⟩ (signalled k 1 .held .idle) (.mutex (.unlock 1))
      (signalled k 0 .out .idle) := by
  refine ⟨⟨rfl, Or.inl (Or.inl rfl)⟩, ?_⟩
  have hval : sub64 1 1 = 0 := sub64_of_le (Nat.le_refl 1) (by norm_num)
  simp [State.exec, Plain.State.exec, Plain.State.mutexUnlock, Plain.State.setVal,
    Plain.State.setTask, signalled, hval]

theorem signalled_run : ∃ ops,
    Run (Step ⟨8, 16, by decide⟩) (State.init ⟨none, []⟩) ops (signalled k 0 .out .idle) := by
  induction k with
  | zero =>
    refine ⟨[.mutex (.lock 0), .condWait 0, .associate 0, .mutex (.unlock 0)],
      .cons ⟨⟨rfl, Or.inl rfl⟩, rfl⟩ (.cons ⟨⟨rfl, Or.inl rfl, by decide⟩, rfl⟩
      (.cons ⟨⟨0, rfl⟩, rfl⟩ (.cons ⟨⟨rfl, Or.inr ⟨0, rfl⟩⟩, ?_⟩ .nil)))⟩
    simp [State.exec, Plain.State.exec, Plain.State.mutexUnlock, Plain.State.setVal,
      Plain.State.setTask, State.setCtl, State.syncCondWait, State.init, Plain.State.init,
      mutexInit, signalled, sub64]
  | succ k ih =>
    obtain ⟨ops, hrun⟩ := ih
    exact ⟨_, (((hrun.snoc (signalled_lock k)).snoc (signalled_signal k)).snoc
      (signalled_condWake (k + 1))).snoc (signalled_unlock (k + 1))⟩

theorem signalled_sleep (hk : k % 2 ^ 64 = 0) : ∃ s,
    Run (Step ⟨8, 16, by decide⟩) (signalled k 1 .held .idle)
      [.mutex (.unlock 1), .pause 0, .settle 0] s ∧ s.ctl 0 = .sleeping ∧
      ∀ t, s.base.tasks t = .out := by
  have hpause : Step ⟨8, 16, by decide⟩ (signalled k 0 .out .idle) (.pause 0)
      { (signalled k 0 .out .idle).setCtl 0 .settling with
        base := { (signalled k 0 .out .idle).base with futexes := ⟨some 0, []⟩ } } := by
    refine ⟨⟨rfl, 0, rfl⟩, ?_⟩
    have hcompare : (⟨none, []⟩ : FutexManager).waitCompare 0 (k % 2 ^ 64) 0
        = some (⟨some 0, []⟩, true) := by rw [hk]; rfl
    show (signalled k 0 .out .idle).pause 0 = _
    simp only [State.pause, signalled, update_of_ne (Nat.zero_ne_one),
      update_self, hcompare]
  refine ⟨_, .cons (signalled_unlock k) (.cons hpause (.cons ⟨rfl, rfl⟩ .nil)), rfl, ?_⟩
  intro t
  simp [State.settle, State.setCtl, signalled]

end Wrap

/-- After 2 ^ 64 signals task 0 compares the sequence number with the value it has loaded
and sleeps, though it was the only waiting task when the last signal was issued. -/
theorem signal_lost_after_wrap :
    ∃ ops s s1 s2, Run (Step ⟨8, 16, by decide⟩) (State.init ⟨none, []⟩) ops s ∧
      (∀ w, Waiter s w ↔ w = 0) ∧ Step ⟨8, 16, by decide⟩ s (.signal 1) s1 ∧
      Step ⟨8, 16, by decide⟩ s1 (.condWake 1) s2 ∧
      ∃ ops' s3, Run (Step ⟨8, 16, by decide⟩) s2 ops' s3 ∧ Op.condWait 0 ∉ ops' ∧
        s3.ctl 0 = .sleeping ∧ ∀ t, s3.base.tasks t = .out := by
  obtain ⟨ops, hrun⟩ := signalled_run (2 ^ 64 - 1)
  obtain ⟨s3, hrun3, hsleeping, hout⟩ := signalled_sleep (2 ^ 64 - 1 + 1) (by norm_num)
  refine ⟨_, _, _, _, hrun.snoc (signalled_lock _), fun w => ?_, signalled_signal _,
    signalled_condWake _, _, s3, hrun3, by simp, hsleeping, hout⟩
  by_cases h1 : w = 1
  · subst h1
    simp [Waiter, signalled]
  · by_cases h0 : w = 0
    · subst h0
      simp [Waiter, signalled]
    · simp [Waiter, signalled, h0, h1]

end Hostboot.Sync.Cond
