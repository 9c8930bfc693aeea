import Mathlib
import Hostboot.Lib.Tally
import Hostboot.Util.ThreadPool

/-!
# The items of a thread pool are handed out

Every item that is inserted should go to one worker, a worker should not sleep
on an item, and a shutdown should leave no item behind that came in time.

The module has four parts:

* `Held`: whoever is at a place that needs the mutex has the mutex;
* `Items`: the items that were handed out and those on the list are the items
  that were inserted, and a worker that leaves empty-handed leaves an empty
  list;
* `Awake`: while a worker sleeps, there are as many workers on their way to the
  list as there are items, where a signal that is still to be sent counts as
  one;
* `handedOut_of_run`: in every state of every run, `HandedOut`.

The count in `Awake` does not include the workers that are busy, so that it
holds when work items crash.
-/

namespace Hostboot.ThreadPool

open Hostboot.Lib List

variable {n : Nat}

/-! ## Who has the mutex -/

/-- The places of a worker that need the mutex. -/
def Worker.holds : Worker → Bool
  | .check | .leave _ => true
  | _ => false

/-- The places of a producer that need the mutex. -/
def Producer.holds : Producer → Bool
  | .push _ | .signal | .unlock => true
  | _ => false

/-- The places of the owner that need the mutex. -/
def Owner.holds : Owner n → Bool
  | .create _ | .setFlag | .broadcast | .join => true
  | _ => false

/-- Whether a thread is at a place that needs the mutex. -/
def State.holdsAt (s : State n) : Thread n → Bool
  | .worker w => (s.workers w).holds
  | .producer p => (s.producers p).holds
  | .owner => s.owner.holds

/-- Whoever is at a place that needs the mutex has it. -/
def Held (s : State n) : Prop := ∀ t, s.holdsAt t = true → s.ivMutex = some t

theorem held_init (n : Nat) : Held (State.init n) := by
  intro t h
  cases t <;> cases h

theorem after_holds (val : Option Item) : (Worker.after val).holds = false := by
  cases val with
  | none => rfl
  | some item =>
    unfold Worker.after
    dsimp only
    split <;> rfl

variable {s s' : State n} {t : Thread n}

/-- One thread goes to another place, and the mutex stays, is taken when it is
free, or is given back. -/
theorem Held.of_thread (h : Held s) (t : Thread n)
    (hothers : ∀ t', t' ≠ t → s'.holdsAt t' = true → s.holdsAt t' = true)
    (hself : s'.holdsAt t = true → s'.ivMutex = some t)
    (hmutex : s'.ivMutex = s.ivMutex ∨ s.ivMutex = none ∨ s.ivMutex = some t) : Held s' := by
  intro t' ht'
  by_cases heq : t' = t
  · subst heq
    exact hself ht'
  · have hheld := h t' (hothers t' heq ht')
    rcases hmutex with hm | hm | hm
    · rw [hm, hheld]
    · rw [hm] at hheld
      cases hheld
    · rw [hm] at hheld
      cases hheld
      exact absurd rfl heq

theorem holdsAt_setWorker (s : State n) (w : Fin n) (x : Worker) (t : Thread n) :
    (s.setWorker w x).holdsAt t = if t = .worker w then x.holds else s.holdsAt t := by
  unfold State.setWorker
  cases t with
  | worker w' =>
    by_cases hw : w' = w
    · subst hw
      simp [State.holdsAt]
    · simp [State.holdsAt, hw]
  | producer p => rfl
  | owner => rfl

theorem holdsAt_setProducer (s : State n) (p : Nat) (x : Producer) (t : Thread n) :
    (s.setProducer p x).holdsAt t = if t = .producer p then x.holds else s.holdsAt t := by
  unfold State.setProducer
  cases t with
  | worker w => rfl
  | producer p' =>
    by_cases hp : p' = p
    · subst hp
      simp [State.holdsAt]
    · simp [State.holdsAt, hp]
  | owner => rfl

theorem holdsAt_setOwner (s : State n) (x : Owner n) (t : Thread n) :
    (s.setOwner x).holdsAt t = if t = .owner then x.holds else s.holdsAt t := by
  cases t <;> rfl

theorem holdsAt_wakeAll (s : State n) (t : Thread n) : s.wakeAll.holdsAt t = s.holdsAt t := by
  cases t with
  | worker w =>
    show (if s.workers w = .waiting then Worker.woken else s.workers w).holds = (s.workers w).holds
    split
    · rename_i hwaits
      rw [hwaits]
      rfl
    · rfl
  | producer p => rfl
  | owner => rfl

theorem Held.step (h : Held s) (hstep : Step s t s') : Held s' := by
  have hworker : ∀ w x t', t' ≠ Thread.worker w → (s.setWorker w x).holdsAt t' = true →
      s.holdsAt t' = true := by
    intro w x t' hne hholds
    rwa [holdsAt_setWorker, if_neg hne] at hholds
  have hproducer : ∀ p x t', t' ≠ Thread.producer p → (s.setProducer p x).holdsAt t' = true →
      s.holdsAt t' = true := by
    intro p x t' hne hholds
    rwa [holdsAt_setProducer, if_neg hne] at hholds
  have howner : ∀ x t', t' ≠ Thread.owner → (s.setOwner x).holdsAt t' = true →
      s.holdsAt t' = true := by
    intro x t' hne hholds
    rwa [holdsAt_setOwner, if_neg hne] at hholds
  cases hstep with
  | insert p ptr at_ =>
    refine h.of_thread (.producer p) (hproducer p _) (fun hh => ?_) (.inl rfl)
    rw [holdsAt_setProducer, if_pos rfl] at hh
    cases hh
  | insertLock p ptr at_ free =>
    exact h.of_thread (.producer p) (hproducer p _) (fun _ => rfl) (.inr (.inl free))
  | insertPush p ptr at_ =>
    refine h.of_thread (.producer p) (hproducer p _) (fun _ => ?_) (.inl rfl)
    exact h (.producer p) (by rw [State.holdsAt, at_]; rfl)
  | insertSignal p w at_ sleeps =>
    refine h.of_thread (.producer p) ?_ (fun _ => ?_) (.inl rfl)
    · intro t' hne hholds
      rw [holdsAt_setWorker] at hholds
      split at hholds
      · cases hholds
      · exact hproducer p _ t' hne hholds
    · exact h (.producer p) (by rw [State.holdsAt, at_]; rfl)
  | insertSignalNone p at_ nobody =>
    refine h.of_thread (.producer p) (hproducer p _) (fun _ => ?_) (.inl rfl)
    exact h (.producer p) (by rw [State.holdsAt, at_]; rfl)
  | insertUnlock p at_ =>
    refine h.of_thread (.producer p) (hproducer p _) (fun hh => ?_) (.inr (.inr ?_))
    · have hh' : (s.setProducer p .idle).holdsAt (.producer p) = true := hh
      rw [holdsAt_setProducer, if_pos rfl] at hh'
      cases hh'
    · exact h (.producer p) (by rw [State.holdsAt, at_]; rfl)
  | removeLock w at_ free =>
    exact h.of_thread (.worker w) (hworker w _) (fun _ => rfl) (.inr (.inl free))
  | removeWait w at_ empty goesOn =>
    refine h.of_thread (.worker w) (hworker w _) (fun hh => ?_) (.inr (.inr ?_))
    · have hh' : (s.setWorker w .waiting).holdsAt (.worker w) = true := hh
      rw [holdsAt_setWorker, if_pos rfl] at hh'
      cases hh'
    · exact h (.worker w) (by rw [State.holdsAt, at_]; rfl)
  | removeWoken w at_ free =>
    exact h.of_thread (.worker w) (hworker w _) (fun _ => rfl) (.inr (.inl free))
  | removeBreak w at_ empty stops =>
    refine h.of_thread (.worker w) (hworker w _) (fun _ => ?_) (.inl rfl)
    exact h (.worker w) (by rw [State.holdsAt, at_]; rfl)
  | removeItem w before after item at_ chosen =>
    refine h.of_thread (.worker w) (hworker w _) (fun _ => ?_) (.inl rfl)
    exact h (.worker w) (by rw [State.holdsAt, at_]; rfl)
  | removeUnlock w val at_ =>
    refine h.of_thread (.worker w) (hworker w _) (fun hh => ?_) (.inr (.inr ?_))
    · have hh' : (s.setWorker w (.after val)).holdsAt (.worker w) = true := hh
      rw [holdsAt_setWorker, if_pos rfl, after_holds] at hh'
      cases hh'
    · exact h (.worker w) (by rw [State.holdsAt, at_]; rfl)
  | finish w item at_ =>
    refine h.of_thread (.worker w) (hworker w _) (fun hh => ?_) (.inl rfl)
    rw [holdsAt_setWorker, if_pos rfl] at hh
    cases hh
  | crash w item at_ =>
    refine h.of_thread (.worker w) (hworker w _) (fun hh => ?_) (.inl rfl)
    rw [holdsAt_setWorker, if_pos rfl] at hh
    cases hh
  | spurious w at_ =>
    refine h.of_thread (.worker w) (hworker w _) (fun hh => ?_) (.inl rfl)
    rw [holdsAt_setWorker, if_pos rfl] at hh
    cases hh
  | start at_ =>
    exact h.of_thread .owner (howner _) (fun hh => by cases hh) (.inl rfl)
  | startLock at_ free =>
    exact h.of_thread .owner (howner _) (fun _ => rfl) (.inr (.inl free))
  | startCreate child left at_ =>
    refine h.of_thread .owner ?_ (fun _ => ?_) (.inl rfl)
    · intro t' hne hholds
      have hholds' : ((s.setOwner (.create left)).setWorker child .enter).holdsAt t' = true := hholds
      rw [holdsAt_setWorker] at hholds'
      split at hholds'
      · cases hholds'
      · exact howner _ t' hne hholds'
    · exact h .owner (by rw [State.holdsAt, at_]; rfl)
  | startUnlock at_ =>
    refine h.of_thread .owner (howner _) (fun hh => by cases hh) (.inr (.inr ?_))
    exact h .owner (by rw [State.holdsAt, at_]; rfl)
  | shutdown at_ =>
    exact h.of_thread .owner (howner _) (fun hh => by cases hh) (.inl rfl)
  | shutdownLock at_ free =>
    exact h.of_thread .owner (howner _) (fun _ => rfl) (.inr (.inl free))
  | shutdownFlag at_ =>
    refine h.of_thread .owner (howner _) (fun _ => ?_) (.inl rfl)
    exact h .owner (by rw [State.holdsAt, at_]; rfl)
  | shutdownBroadcast at_ =>
    refine h.of_thread .owner ?_ (fun _ => ?_) (.inl rfl)
    · intro t' hne hholds
      rwa [holdsAt_setOwner, if_neg hne, holdsAt_wakeAll] at hholds
    · exact h .owner (by rw [State.holdsAt, at_]; rfl)
  | joinChild child rest at_ children =>
    refine h.of_thread .owner (howner _) (fun hh => by cases hh) (.inr (.inr ?_))
    exact h .owner (by rw [State.holdsAt, at_]; rfl)
  | joined child how at_ done =>
    exact h.of_thread .owner (howner _) (fun hh => by cases hh) (.inl rfl)
  | relock at_ free =>
    exact h.of_thread .owner (howner _) (fun _ => rfl) (.inr (.inl free))
  | shutdownReturn at_ none =>
    refine h.of_thread .owner (howner _) (fun hh => by cases hh) (.inr (.inr ?_))
    exact h .owner (by rw [State.holdsAt, at_]; rfl)

/-! ## The items -/

/-- Where the items are.  Their numbers tell when they were inserted. -/
structure Items (s : State n) : Prop where
  perm : (s.handed.map Prod.fst ++ s.ivWorklist.map Item.id).Perm (List.range s.inserted)
  bound : s.mark ≤ s.inserted
  late : ∀ item ∈ s.ivWorklist, s.mark ≤ item.id
  empty : ∀ w, s.workers w = .leave none → s.ivWorklist = []

theorem items_init (n : Nat) : Items (State.init n) where
  perm := List.Perm.refl _
  bound := Nat.le_refl 0
  late := fun _ h => by cases h
  empty := fun _ h => by cases h

theorem Items.of_same (h : Items s) (hhanded : s'.handed = s.handed)
    (hlist : s'.ivWorklist = s.ivWorklist) (hinserted : s'.inserted = s.inserted)
    (hmark : s'.mark = s.mark)
    (hleave : ∀ w, s'.workers w = .leave none → s.workers w = .leave none) : Items s' where
  perm := by
    rw [hhanded, hlist, hinserted]
    exact h.perm
  bound := by
    rw [hmark, hinserted]
    exact h.bound
  late := by
    rw [hlist, hmark]
    exact h.late
  empty := by
    intro w hw
    rw [hlist]
    exact h.empty w (hleave w hw)

theorem leave_of_setWorker {w w' : Fin n} {x : Worker} (hx : x ≠ .leave none)
    (h : (s.setWorker w x).workers w' = .leave none) : s.workers w' = .leave none := by
  by_cases hw : w' = w
  · subst hw
    rw [State.setWorker_self] at h
    exact absurd h hx
  · rwa [State.setWorker_of_ne s x hw] at h

theorem after_ne_leave (val : Option Item) : Worker.after val ≠ .leave none := by
  cases val with
  | none => exact Worker.noConfusion
  | some item =>
    unfold Worker.after
    dsimp only
    split <;> exact Worker.noConfusion

/-- A worker that leaves empty-handed has the mutex, so that nobody else uses
the list. -/
theorem Held.not_leave (h : Held s) {w : Fin n} (hmutex : s.ivMutex ≠ some (.worker w))
    (hleave : s.workers w = .leave none) : False := by
  refine hmutex (h (.worker w) ?_)
  rw [State.holdsAt, hleave]
  rfl

theorem Items.step (h : Items s) (hheld : Held s) (hstep : Step s t s') : Items s' := by
  cases hstep with
  | insertPush p ptr at_ =>
    have hmutex := hheld (.producer p) (by rw [State.holdsAt, at_]; rfl)
    refine { perm := ?_, bound := Nat.le_succ_of_le h.bound, late := ?_, empty := ?_ }
    · show (s.handed.map Prod.fst ++ (s.ivWorklist ++ [Item.mk s.inserted ptr]).map Item.id).Perm
        (List.range (s.inserted + 1))
      rw [map_append, ← append_assoc, range_succ]
      exact h.perm.append_right _
    · intro item hitem
      show s.mark ≤ item.id
      rcases mem_append.mp hitem with hold | hnew
      · exact h.late item hold
      · rw [mem_singleton.mp hnew]
        exact h.bound
    · intro w hw
      refine absurd hw fun hleave => hheld.not_leave (w := w) ?_ hleave
      rw [hmutex]
      exact fun heq => by cases heq
  | removeItem w before after item at_ chosen =>
    have hmutex := hheld (.worker w) (by rw [State.holdsAt, at_]; rfl)
    have hold : (s.handed.map Prod.fst ++ (before ++ item :: after).map Item.id).Perm
        (List.range s.inserted) := chosen ▸ h.perm
    refine { perm := ?_, bound := h.bound, late := ?_, empty := ?_ }
    · show ((s.handed ++ [(item.id, w)]).map Prod.fst ++ (before ++ after).map Item.id).Perm
        (List.range s.inserted)
      refine List.Perm.trans ?_ hold
      rw [map_append, map_append, map_append, append_assoc]
      refine List.Perm.append_left _ ?_
      show (item.id :: (before.map Item.id ++ after.map Item.id)).Perm
        (before.map Item.id ++ item.id :: after.map Item.id)
      exact perm_middle.symm
    · intro other hother
      refine h.late other ?_
      rw [chosen]
      rcases mem_append.mp hother with hb | ha
      · exact mem_append_left _ hb
      · exact mem_append_right _ (mem_cons_of_mem _ ha)
    · intro w' hw'
      have hleave : s.workers w' = .leave none :=
        leave_of_setWorker (x := .leave (some item)) (fun heq => by cases heq) hw'
      refine absurd hleave fun hleave => hheld.not_leave ?_ hleave
      rw [hmutex]
      intro heq
      cases heq
      rw [at_] at hleave
      cases hleave
  | removeBreak w at_ empty stops =>
    refine { perm := h.perm, bound := h.bound, late := h.late, empty := fun _ _ => empty }
  | removeUnlock w val at_ =>
    cases val with
    | some item =>
      exact h.of_same rfl rfl rfl rfl fun w' hw' => leave_of_setWorker (after_ne_leave _) hw'
    | none =>
      have hempty := h.empty w at_
      refine { perm := h.perm, bound := Nat.le_refl _, late := ?_,
               empty := fun w' hw' => hempty }
      intro item hitem
      have hitem' : item ∈ s.ivWorklist := hitem
      rw [hempty] at hitem'
      cases hitem'
  | insert p ptr at_ => exact h.of_same rfl rfl rfl rfl fun _ hw => hw
  | insertLock p ptr at_ free => exact h.of_same rfl rfl rfl rfl fun _ hw => hw
  | insertSignal p w at_ sleeps =>
    exact h.of_same rfl rfl rfl rfl fun w' hw' =>
      leave_of_setWorker (s := s.setProducer p .unlock) (fun heq => by cases heq) hw'
  | insertSignalNone p at_ nobody => exact h.of_same rfl rfl rfl rfl fun _ hw => hw
  | insertUnlock p at_ => exact h.of_same rfl rfl rfl rfl fun _ hw => hw
  | removeLock w at_ free =>
    exact h.of_same rfl rfl rfl rfl fun w' hw' => leave_of_setWorker (fun heq => by cases heq) hw'
  | removeWait w at_ empty goesOn =>
    exact h.of_same rfl rfl rfl rfl fun w' hw' => leave_of_setWorker (fun heq => by cases heq) hw'
  | removeWoken w at_ free =>
    exact h.of_same rfl rfl rfl rfl fun w' hw' => leave_of_setWorker (fun heq => by cases heq) hw'
  | finish w item at_ =>
    exact h.of_same rfl rfl rfl rfl fun w' hw' => leave_of_setWorker (fun heq => by cases heq) hw'
  | crash w item at_ =>
    exact h.of_same rfl rfl rfl rfl fun w' hw' => leave_of_setWorker (fun heq => by cases heq) hw'
  | spurious w at_ =>
    exact h.of_same rfl rfl rfl rfl fun w' hw' => leave_of_setWorker (fun heq => by cases heq) hw'
  | start at_ => exact h.of_same rfl rfl rfl rfl fun _ hw => hw
  | startLock at_ free => exact h.of_same rfl rfl rfl rfl fun _ hw => hw
  | startCreate child left at_ =>
    exact h.of_same rfl rfl rfl rfl fun w' hw' =>
      leave_of_setWorker (s := s.setOwner (.create left)) (fun heq => by cases heq) hw'
  | startUnlock at_ => exact h.of_same rfl rfl rfl rfl fun _ hw => hw
  | shutdown at_ => exact h.of_same rfl rfl rfl rfl fun _ hw => hw
  | shutdownLock at_ free => exact h.of_same rfl rfl rfl rfl fun _ hw => hw
  | shutdownFlag at_ => exact h.of_same rfl rfl rfl rfl fun _ hw => hw
  | shutdownBroadcast at_ =>
    refine h.of_same rfl rfl rfl rfl fun w hw => ?_
    have hw' : (if s.workers w = .waiting then Worker.woken else s.workers w) = .leave none := hw
    split at hw'
    · cases hw'
    · exact hw'
  | joinChild child rest at_ children => exact h.of_same rfl rfl rfl rfl fun _ hw => hw
  | joined child how at_ done => exact h.of_same rfl rfl rfl rfl fun _ hw => hw
  | relock at_ free => exact h.of_same rfl rfl rfl rfl fun _ hw => hw
  | shutdownReturn at_ none => exact h.of_same rfl rfl rfl rfl fun _ hw => hw

/-! ## The workers that are awake -/

/-- A worker that is awake and on its way to the list. -/
def Worker.isChecking : Worker → Bool
  | .enter | .check | .woken => true
  | _ => false

/-- While a worker sleeps, as many workers are on their way to the list as there
are items, or there is one item more and its signal is still to be sent. -/
def Awake (s : State n) : Prop :=
  (∃ w, s.workers w = .waiting) →
    s.ivWorklist.length ≤ tally s.workers Worker.isChecking ∨
      ((∃ p, s.producers p = .signal) ∧
        s.ivWorklist.length ≤ tally s.workers Worker.isChecking + 1)

theorem awake_init (n : Nat) : Awake (State.init n) := fun _ => .inl (Nat.zero_le _)

/-- A step that adds no item, takes nobody off the way to the list, puts nobody
to sleep and withdraws no signal. -/
theorem Awake.of_le (h : Awake s)
    (hwaiting : (∃ w, s'.workers w = .waiting) → ∃ w, s.workers w = .waiting)
    (hlist : s'.ivWorklist.length ≤ s.ivWorklist.length)
    (hchecking : tally s.workers Worker.isChecking ≤ tally s'.workers Worker.isChecking)
    (hsignal : (∃ p, s.producers p = .signal) → ∃ p, s'.producers p = .signal) : Awake s' := by
  intro hex
  rcases h (hwaiting hex) with hle | ⟨hsig, hle⟩
  · exact .inl (by omega)
  · exact .inr ⟨hsignal hsig, by omega⟩

theorem waiting_of_setWorker {w : Fin n} {x : Worker} (hx : x ≠ .waiting)
    (h : ∃ w', (s.setWorker w x).workers w' = .waiting) : ∃ w', s.workers w' = .waiting := by
  obtain ⟨w', hw'⟩ := h
  by_cases hw : w' = w
  · subst hw
    rw [State.setWorker_self] at hw'
    exact absurd hw' hx
  · rw [State.setWorker_of_ne s x hw] at hw'
    exact ⟨w', hw'⟩

theorem checking_setWorker (s : State n) (w : Fin n) (x : Worker) :
    tally (s.setWorker w x).workers Worker.isChecking + (s.workers w).isChecking.toNat =
      tally s.workers Worker.isChecking + x.isChecking.toNat :=
  tally_update s.workers Worker.isChecking w x

theorem Awake.setWorker (h : Awake s) {w : Fin n} {x : Worker} (hx : x ≠ .waiting)
    (hchecking : (s.workers w).isChecking = true → x.isChecking = true) :
    Awake (s.setWorker w x) := by
  refine h.of_le (waiting_of_setWorker hx) (Nat.le_refl _) ?_ id
  have hcount := checking_setWorker s w x
  cases hold : (s.workers w).isChecking with
  | false =>
    rw [hold] at hcount
    simp only [Bool.toNat_false] at hcount
    omega
  | true =>
    rw [hold, hchecking hold] at hcount
    omega

theorem Awake.setProducer (h : Awake s) {p : Nat} {x : Producer}
    (hp : s.producers p ≠ .signal) : Awake (s.setProducer p x) := by
  refine h.of_le id (Nat.le_refl _) (Nat.le_refl _) ?_
  intro hex
  obtain ⟨p', hp'⟩ := hex
  have hne : p' ≠ p := by
    intro heq
    subst heq
    exact hp hp'
  exact ⟨p', (State.setProducer_of_ne s x hne).trans hp'⟩

theorem Held.signal_eq (h : Held s) {p : Nat} {t : Thread n} (hsignal : s.producers p = .signal)
    (hmutex : s.ivMutex = some t) : t = .producer p := by
  have hheld := h (.producer p) (by rw [State.holdsAt, hsignal]; rfl)
  rw [hmutex] at hheld
  exact Option.some.inj hheld

theorem Awake.step (h : Awake s) (hheld : Held s) (hstep : Step s t s') : Awake s' := by
  cases hstep with
  | insertPush p ptr at_ =>
    have hmutex := hheld (.producer p) (by rw [State.holdsAt, at_]; rfl)
    intro hex
    have hlen : (s.ivWorklist ++ [Item.mk s.inserted ptr]).length = s.ivWorklist.length + 1 :=
      length_append
    refine .inr ⟨⟨p, Function.update_self _ _ _⟩, ?_⟩
    show (s.ivWorklist ++ [_]).length ≤ tally s.workers Worker.isChecking + 1
    rw [hlen]
    rcases h hex with hle | ⟨⟨p', hp'⟩, -⟩
    · exact Nat.succ_le_succ hle
    · have heq := hheld.signal_eq hp' hmutex
      cases heq
      rw [at_] at hp'
      cases hp'
  | insertSignal p w at_ sleeps =>
    intro _
    have hcount := checking_setWorker (s.setProducer p .unlock) w .woken
    have hold : ((s.setProducer p .unlock).workers w).isChecking = false := by
      show (s.workers w).isChecking = false
      rw [sleeps]
      rfl
    rw [hold] at hcount
    have hmore : tally ((s.setProducer p .unlock).setWorker w .woken).workers Worker.isChecking =
        tally s.workers Worker.isChecking + 1 := hcount
    refine .inl ?_
    rw [hmore]
    show s.ivWorklist.length ≤ _
    rcases h ⟨w, sleeps⟩ with hle | ⟨-, hle⟩ <;> omega
  | insertSignalNone p at_ nobody =>
    intro hex
    obtain ⟨w, hw⟩ := hex
    exact absurd hw (nobody w)
  | removeItem w before after item at_ chosen =>
    have hmutex := hheld (.worker w) (by rw [State.holdsAt, at_]; rfl)
    intro hex
    have hcount := checking_setWorker s w (.leave (some item))
    rw [at_] at hcount
    have hless : tally (s.setWorker w (.leave (some item))).workers Worker.isChecking + 1 =
        tally s.workers Worker.isChecking := hcount
    have hlen : s.ivWorklist.length = (before ++ after).length + 1 := by
      rw [chosen, length_append, length_cons, length_append]
      omega
    refine .inl ?_
    show (before ++ after).length ≤ tally (s.setWorker w (.leave (some item))).workers _
    rcases h (waiting_of_setWorker (fun heq => by cases heq) hex) with hle | ⟨⟨p, hp⟩, -⟩
    · omega
    · have heq := hheld.signal_eq hp hmutex
      cases heq
  | removeWait w at_ empty goesOn =>
    intro _
    refine .inl ?_
    show s.ivWorklist.length ≤ _
    rw [empty]
    exact Nat.zero_le _
  | removeBreak w at_ empty stops =>
    intro _
    refine .inl ?_
    show s.ivWorklist.length ≤ _
    rw [empty]
    exact Nat.zero_le _
  | shutdownBroadcast at_ =>
    intro hex
    obtain ⟨w, hw⟩ := hex
    have hw' : (if s.workers w = .waiting then Worker.woken else s.workers w) = .waiting := hw
    split at hw'
    · cases hw'
    · exact absurd hw' (by assumption)
  | insert p ptr at_ => exact h.setProducer (by rw [at_]; exact Producer.noConfusion)
  | insertLock p ptr at_ free => exact h.setProducer (by rw [at_]; exact Producer.noConfusion)
  | insertUnlock p at_ => exact h.setProducer (by rw [at_]; exact Producer.noConfusion)
  | removeLock w at_ free => exact h.setWorker (fun heq => by cases heq) (fun _ => rfl)
  | removeWoken w at_ free => exact h.setWorker (fun heq => by cases heq) (fun _ => rfl)
  | removeUnlock w val at_ =>
    refine h.setWorker ?_ (fun hc => by rw [at_] at hc; cases hc)
    cases val with
    | none => exact Worker.noConfusion
    | some item =>
      unfold Worker.after
      dsimp only
      split <;> exact Worker.noConfusion
  | finish w item at_ => exact h.setWorker (fun heq => by cases heq) (fun _ => rfl)
  | crash w item at_ =>
    exact h.setWorker (fun heq => by cases heq) (fun hc => by rw [at_] at hc; cases hc)
  | spurious w at_ => exact h.setWorker (fun heq => by cases heq) (fun _ => rfl)
  | startCreate child left at_ => exact h.setWorker (fun heq => by cases heq) (fun _ => rfl)
  | start at_ => exact h
  | startLock at_ free => exact h
  | startUnlock at_ => exact h
  | shutdown at_ => exact h
  | shutdownLock at_ free => exact h
  | shutdownFlag at_ => exact h
  | joinChild child rest at_ children => exact h
  | joined child how at_ done => exact h
  | relock at_ free => exact h
  | shutdownReturn at_ none => exact h

/-! ## Runs -/

/-- What should hold of the items and of the workers. -/
structure HandedOut (s : State n) : Prop where
  /-- No item is handed out twice. -/
  once : (s.handed.map Prod.fst).Nodup
  inserted : ∀ a ∈ s.handed, a.1 < s.inserted
  /-- When there is an item and a worker sleeps, another worker is on its way to
  the list, or a signal is still to be sent. -/
  awake : s.ivWorklist ≠ [] → (∃ w, s.workers w = .waiting) →
    (∃ w, (s.workers w).isChecking = true) ∨ ∃ p, s.producers p = .signal
  /-- When the shutdown has returned and all workers have ended empty-handed,
  the items that were inserted before the last of them ended are handed out. -/
  drained : s.owner = .returned → (∀ w, s.workers w = .ended .emptyHanded) →
    ∀ id < s.mark, ∃ w, (id, w) ∈ s.handed

theorem Items.once (h : Items s) : (s.handed.map Prod.fst).Nodup :=
  ((h.perm.nodup_iff).mpr nodup_range).of_append_left

theorem Items.inserted (h : Items s) : ∀ a ∈ s.handed, a.1 < s.inserted := by
  intro a ha
  exact mem_range.mp
    (h.perm.mem_iff.mp (mem_append_left _ (mem_map_of_mem ha)))

theorem Items.handed_of_lt (h : Items s) {id : Nat} (hid : id < s.mark) :
    ∃ w, (id, w) ∈ s.handed := by
  have hmem : id ∈ s.handed.map Prod.fst ++ s.ivWorklist.map Item.id :=
    h.perm.mem_iff.mpr (mem_range.mpr (Nat.lt_of_lt_of_le hid h.bound))
  rcases mem_append.mp hmem with hhanded | hlist
  · obtain ⟨a, ha, heq⟩ := mem_map.mp hhanded
    exact ⟨a.2, heq ▸ ha⟩
  · obtain ⟨item, hitem, heq⟩ := mem_map.mp hlist
    have hlate := h.late item hitem
    omega

theorem Awake.someone (h : Awake s) (hlist : s.ivWorklist ≠ [])
    (hwaiting : ∃ w, s.workers w = .waiting) :
    (∃ w, (s.workers w).isChecking = true) ∨ ∃ p, s.producers p = .signal := by
  have hpos : 0 < s.ivWorklist.length := length_pos_iff.mpr hlist
  rcases h hwaiting with hle | ⟨hsignal, -⟩
  · refine .inl ?_
    by_contra hnone
    have hzero : tally s.workers Worker.isChecking = 0 := by
      rw [tally_eq_zero]
      intro w
      rw [Bool.eq_false_iff]
      exact fun hw => hnone ⟨w, hw⟩
    omega
  · exact .inr hsignal

/-- In every run of a pool with any number of workers and producers. -/
theorem handedOut_of_run {ts : List (Thread n)} (hrun : Run Step (State.init n) ts s) :
    HandedOut s := by
  let Inv : State n → Prop := fun s => Held s ∧ Items s ∧ Awake s
  have hinv : Inv s := by
    refine hrun.invariant ⟨held_init n, items_init n, awake_init n⟩ ?_
    intro s t s' ih hstep
    obtain ⟨hheld, hitems, hawake⟩ := ih
    exact ⟨hheld.step hstep, hitems.step hheld hstep, hawake.step hheld hstep⟩
  obtain ⟨-, hitems, hawake⟩ := hinv
  exact
    { once := hitems.once
      inserted := hitems.inserted
      awake := hawake.someone
      drained := fun _ _ _ hid => hitems.handed_of_lt hid }

/-- One worker sleeps, is woken for an item, and ends at the shutdown. -/
theorem handedOut_of_run_one :
    ∃ (ts : List (Thread 1)) (s : State 1), Run Step (State.init 1) ts s ∧
      s.owner = .returned ∧ (∀ w, s.workers w = .ended .emptyHanded) ∧ s.mark = 1 ∧
      s.handed = [(0, 0)] ∧ HandedOut s := by
  have hrun : ∃ (ts : List (Thread 1)) (s : State 1), Run Step (State.init 1) ts s ∧
      s.owner = .returned ∧ (∀ w, s.workers w = .ended .emptyHanded) ∧ s.mark = 1 ∧
      s.handed = [(0, 0)] :=
    ⟨_, _, .cons (.start rfl) (.cons (.startLock rfl rfl) (.cons (.startCreate 0 [] rfl)
      (.cons (.startUnlock rfl) (.cons (.removeLock 0 rfl rfl) (.cons (.removeWait 0 rfl rfl rfl)
      (.cons (.insert 0 0x1000 rfl) (.cons (.insertLock 0 _ rfl rfl) (.cons (.insertPush 0 _ rfl)
      (.cons (.insertSignal 0 0 rfl rfl) (.cons (.insertUnlock 0 rfl)
      (.cons (.removeWoken 0 rfl rfl) (.cons (.removeItem 0 [] [] _ rfl rfl)
      (.cons (.removeUnlock 0 _ rfl) (.cons (.finish 0 _ rfl) (.cons (.shutdown (.inr rfl))
      (.cons (.shutdownLock rfl rfl) (.cons (.shutdownFlag rfl) (.cons (.shutdownBroadcast rfl)
      (.cons (.joinChild 0 [] rfl rfl) (.cons (.removeLock 0 rfl rfl)
      (.cons (.removeBreak 0 rfl rfl rfl) (.cons (.removeUnlock 0 _ rfl)
      (.cons (.joined 0 .emptyHanded rfl rfl) (.cons (.relock rfl rfl)
      (.cons (.shutdownReturn rfl rfl) .nil))))))))))))))))))))))))),
      rfl, (fun w => by fin_cases w; rfl), rfl, rfl⟩
  obtain ⟨ts, s, hrun, howner, hworkers, hmark, hhanded⟩ := hrun
  exact ⟨ts, s, hrun, howner, hworkers, hmark, hhanded, handedOut_of_run hrun⟩

end Hostboot.ThreadPool
