import Mathlib
import Hostboot.Lib.Run
import Hostboot.TaskMgr.Tree

/-!
# Waiting for children

`_waitTask` blocks a task only if no child that it waits for is finished, and
`_endTask` starts a parent that waits for the task.  So a task is not blocked while
a child that it waits for is finished.

Two things break this.  When a detached task ends, its finished children move to its
parent, and nobody tells the parent, which may be blocked in a wait for any task.
And after 65536 creations two children of a task can have the same tid; then the
search for the tid may find the one that still runs.  `Op.Fine` leaves these out.
-/

namespace Hostboot.TaskMgr

open Hostboot.Lib
open Function (update_eq_self_iff update_of_ne update_self)

/-- No finished child, `except` apart, matches the wait of its parent. -/
def JoinedBut (except : Option Nat) (s : State) : Prop :=
  ∀ p tracker wait, s.trackers p = some tracker → tracker.waitInfo = some wait →
    ∀ c ∈ tracker.children, some c ≠ except → ∀ child, s.trackers c = some child →
      child.task = none → ¬ wait.Matches child.key

/-- No task is blocked in a wait while a child that it waits for is finished. -/
def Joined (s : State) : Prop :=
  ∀ p tracker wait, s.trackers p = some tracker → tracker.waitInfo = some wait →
    ∀ c ∈ tracker.children, ∀ child, s.trackers c = some child →
      child.task = none → ¬ wait.Matches child.key

/-- The operation does not meet one of the two gaps. -/
def Op.Fine (s : State) : Op → Prop
  | .endTask t _ _ => ∀ task tracker p parent wait, s.tasks t = some task → task.detached →
      s.trackers t = some tracker → tracker.parent = some p → s.trackers p = some parent →
      parent.waitInfo = some wait → ∀ c ∈ tracker.children, ∀ child, s.trackers c = some child →
      child.task = none → ¬ wait.Matches child.key
  | .waitTask t tid _ _ => ∀ tracker c c' child child', s.trackers t = some tracker →
      c ∈ tracker.children → c' ∈ tracker.children → s.trackers c = some child →
      s.trackers c' = some child' → (child.key : Int) = tid → (child'.key : Int) = tid →
      child.task = none → child'.task = none
  | _ => True

/-- A step that does not meet one of the gaps. -/
def FineStep (s : State) (op : Op) (s' : State) : Prop := Step s op s' ∧ op.Fine s

/-- The invariant: the links of the tree, the keys of the trackers, and the waits. -/
structure JoinOk (s : State) : Prop where
  tree : Tree none s
  keys : ∀ t task tracker, s.tasks t = some task → s.trackers t = some tracker →
    tracker.key = task.tid
  keys_lt : ∀ t tracker, s.trackers t = some tracker → tracker.key < 2 ^ 16
  next_lt : s.nextTid < 2 ^ 16
  joined : Joined s

/-! ## Parts of the operations -/

section Parts

variable {s s' : State} {t p : Nat} {tracker : Tracker} {parent : Option Nat} {kids : List Nat}

theorem Joined.congr (h : Joined s) (htrackers : s'.trackers = s.trackers) : Joined s' := by
  unfold Joined at h ⊢
  rw [htrackers]
  exact h

theorem JoinedBut.shrinks (h : JoinedBut (some t) s) (hs : Shrinks parent kids s s')
    (ht : s'.trackers t = none)
    (hkids : ∀ p tracker wait, parent = some p → s.trackers p = some tracker →
      tracker.waitInfo = some wait → ∀ c ∈ kids, ∀ child, s.trackers c = some child →
      child.task = none → ¬ wait.Matches child.key) : Joined s' := by
  intro q tracker' wait hq hwait c hc child' hchild htask
  obtain ⟨tracker, hq', -, -, -, hwait', hchildren⟩ := hs q tracker' hq
  obtain ⟨child, hchild', hkey, htask', -⟩ := hs c child' hchild
  rw [hkey]
  have hct : some c ≠ some t := by
    intro heq
    obtain rfl := Option.some.inj heq
    exact absurd (hchild.symm.trans ht) (by simp)
  rcases hchildren c hc with hc | ⟨rfl, hc⟩
  · exact h q tracker wait hq' (hwait'.symm.trans hwait) c hc hct child hchild'
      (htask'.symm.trans htask)
  · exact hkids q tracker wait rfl hq' (hwait'.symm.trans hwait) c hc child hchild'
      (htask'.symm.trans htask)

/-- No live task is new or has a new tid. -/
def SameTids (s s' : State) : Prop :=
  ∀ t task', s'.tasks t = some task' → ∃ task, s.tasks t = some task ∧ task'.tid = task.tid

theorem SameTids.setTask {task task' : Task} (ht : s.tasks t = some task)
    (htid : task'.tid = task.tid) : SameTids s (s.setTask t task') := by
  intro t' other ht'
  by_cases heq : t' = t
  · subst heq
    simp only [State.setTask, update_self, Option.some.injEq] at ht'
    exact ⟨task, ht, by rw [← ht', htid]⟩
  · simp only [State.setTask, update_of_ne heq] at ht'
    exact ⟨other, ht', rfl⟩

theorem SameTids.of_tasks (h : s'.tasks = s.tasks) : SameTids s s' := by
  intro t task ht
  rw [h] at ht
  exact ⟨task, ht, rfl⟩

/-- A change that the trackers do not see. -/
structure SameTree (s s' : State) : Prop where
  trackers : s'.trackers = s.trackers
  tids : SameTids s s'
  nextTid : s'.nextTid = s.nextTid
  created : s'.created = s.created

theorem SameTree.store (s : State) (addr : Option Nat) (value : Int) :
    SameTree s (s.store addr value) := by
  cases addr <;> exact ⟨rfl, SameTids.of_tasks rfl, rfl, rfl⟩

theorem SameTree.taskSetRtn (s : State) (n : Nat) (value : Int) :
    SameTree s (s.taskSetRtn n value) := by
  unfold State.taskSetRtn
  split
  · exact ⟨rfl, SameTids.of_tasks rfl, rfl, rfl⟩
  · rename_i task htask
    exact ⟨rfl, SameTids.setTask htask rfl, rfl, rfl⟩

theorem SameTree.addTask (s : State) (n : Nat) : SameTree s (s.addTask n) := by
  unfold State.addTask
  split
  · exact ⟨rfl, SameTids.of_tasks rfl, rfl, rfl⟩
  · rename_i task htask
    exact ⟨rfl, SameTids.setTask htask rfl, rfl, rfl⟩

theorem SameTree.deleteStack {tid : Nat} (h : s.deleteStack tid = some s') : SameTree s s' := by
  unfold State.deleteStack at h
  split at h
  · exact absurd h (by simp)
  · obtain rfl := Option.some.inj h
    exact ⟨rfl, SameTids.of_tasks rfl, rfl, rfl⟩

theorem SameTree.deleteTask (s : State) (t : Nat) :
    SameTree s { s with tasks := Function.update s.tasks t none } := by
  refine ⟨rfl, fun t' task ht' => ?_, rfl, rfl⟩
  replace ht' : Function.update s.tasks t none t' = some task := ht'
  by_cases heq : t' = t
  · rw [heq, update_self] at ht'
    exact absurd ht' (by simp)
  · rw [update_of_ne heq] at ht'
    exact ⟨task, ht', rfl⟩

/-- The invariant but for the waits. -/
structure KeysOk (s : State) : Prop where
  keys : ∀ t task tracker, s.tasks t = some task → s.trackers t = some tracker →
    tracker.key = task.tid
  keys_lt : ∀ t tracker, s.trackers t = some tracker → tracker.key < 2 ^ 16
  next_lt : s.nextTid < 2 ^ 16

theorem KeysOk.shrinks (h : KeysOk s) (htids : SameTids s s') (hs : Shrinks parent kids s s')
    (hnext : s'.nextTid = s.nextTid) : KeysOk s' := by
  refine ⟨fun t task' tracker' ht' htracker' => ?_, fun t tracker' htracker' => ?_, ?_⟩
  · obtain ⟨tracker, htracker, hkey, -⟩ := hs t tracker' htracker'
    obtain ⟨task, ht, htid⟩ := htids t task' ht'
    rw [hkey, h.keys t task tracker ht htracker, htid]
  · obtain ⟨tracker, htracker, hkey, -⟩ := hs t tracker' htracker'
    rw [hkey]
    exact h.keys_lt t tracker htracker
  · rw [hnext]
    exact h.next_lt

theorem JoinOk.keysOk (h : JoinOk s) : KeysOk s := ⟨h.keys, h.keys_lt, h.next_lt⟩

theorem KeysOk.joinOk (h : KeysOk s) (htree : Tree none s) (hjoined : Joined s) : JoinOk s :=
  ⟨htree, h.keys, h.keys_lt, h.next_lt, hjoined⟩

theorem KeysOk.congr (h : KeysOk s) (hs : SameTree s s') : KeysOk s' := by
  have hshrinks : Shrinks none [] s s' := Shrinks.of_trackers hs.trackers
  exact h.shrinks hs.tids hshrinks hs.nextTid

theorem JoinOk.congr (h : JoinOk s) (hs : SameTree s s') : JoinOk s' := by
  apply (h.keysOk.congr hs).joinOk
  · exact h.tree.congr hs.trackers hs.created
  · exact h.joined.congr hs.trackers

end Parts

/-! ## The operations -/

section Ops

variable {s s' : State} {t : Nat} {task : Task} {tracker : Tracker}

theorem JoinOk.taskDetach (h : JoinOk s) (hexec : s.taskDetach t = some s') : JoinOk s' := by
  unfold State.taskDetach at hexec
  cases ht : s.tasks t with
  | none =>
    rw [ht] at hexec
    exact absurd hexec (by simp)
  | some task =>
    rw [ht] at hexec
    obtain rfl := Option.some.inj hexec
    exact h.congr ⟨rfl, SameTids.setTask ht rfl, rfl, rfl⟩

/-! ### Creation -/

/-- The tracker of a new task. -/
def newTracker (s : State) (parent : Option Nat) : Tracker :=
  ⟨parent, [], s.nextTid, some s.created, -1, 0, none⟩

section Create

variable (stackPtr : Nat) {p : Nat} {current : Option Nat} {kernelParent : Bool}

theorem addTracker_trackers_none (hparent : (if kernelParent then none else current) = none) :
    (s.addTracker stackPtr current kernelParent).trackers
      = Function.update s.trackers s.created (some (newTracker s none)) := by
  unfold State.addTracker
  rw [hparent]
  rfl

theorem addTracker_trackers_some (hparent : (if kernelParent then none else current) = some p)
    (hp : s.trackers p = some tracker) (hne : p ≠ s.created) :
    (s.addTracker stackPtr current kernelParent).trackers
      = Function.update (Function.update s.trackers s.created (some (newTracker s (some p)))) p
          (some { tracker with children := s.created :: tracker.children }) := by
  have hlookup : ((s.setTracker s.created (newTracker s (some p))).setTask s.created
      ⟨s.nextTid, stackPtr, .ready, false, 0⟩).trackers p = some tracker := by
    show Function.update s.trackers s.created _ p = some tracker
    rw [update_of_ne hne]
    exact hp
  unfold State.addTracker
  rw [hparent]
  unfold State.insertTracker
  unfold newTracker at hlookup
  dsimp only
  rw [hlookup]
  rfl

theorem Tree.create_none (h : Tree none s)
    (htrackers : s'.trackers = Function.update s.trackers s.created (some (newTracker s none)))
    (hcreated : s'.created = s.created + 1) : Tree none s' := by
  have hnew := h.fresh s.created (Nat.le_refl _)
  have hp : s'.parentOf = Function.update s.parentOf s.created (some none) := by
    have hsame : s'.parentOf = (s.setTracker s.created (newTracker s none)).parentOf :=
      State.parentOf_congr htrackers
    rw [hsame, State.parentOf_setTracker]
    rfl
  have hc : s'.childrenOf = s.childrenOf := by
    have hsame : s'.childrenOf = (s.setTracker s.created (newTracker s none)).childrenOf :=
      State.childrenOf_congr htrackers
    rw [hsame, State.childrenOf_setTracker]
    apply update_eq_self_iff.mpr
    simp [State.childrenOf, hnew, newTracker]
  refine ⟨fun q c => ?_, by rw [hc]; exact h.nodup, fun q c hq => ?_, fun n hn => ?_⟩
  · rw [hp, hc, h.links]
    by_cases heq : c = s.created
    · subst heq
      simp [State.parentOf, hnew]
    · rw [update_of_ne heq]
  · rw [hp] at hq
    by_cases heq : c = s.created
    · subst heq
      simp at hq
    · rw [update_of_ne heq] at hq
      exact h.older q c hq
  · rw [htrackers, update_of_ne (by omega)]
    exact h.fresh n (by omega)

theorem Tree.create_some (h : Tree none s) (hp : s.trackers p = some tracker)
    (htrackers : s'.trackers = Function.update
      (Function.update s.trackers s.created (some (newTracker s (some p)))) p
        (some { tracker with children := s.created :: tracker.children }))
    (hcreated : s'.created = s.created + 1) : Tree none s' := by
  have hnew := h.fresh s.created (Nat.le_refl _)
  have hlt := h.lt_created hp
  have hpchildren := State.childrenOf_of_some hp
  have hparentOf : s'.parentOf = Function.update s.parentOf s.created (some (some p)) := by
    funext c
    unfold State.parentOf
    rw [htrackers]
    by_cases hcp : c = p
    · subst hcp
      rw [update_self, update_of_ne (by omega)]
      simp [hp]
    · rw [update_of_ne hcp]
      by_cases heq : c = s.created
      · subst heq
        simp [newTracker]
      · simp [heq]
  have hchildrenOf : s'.childrenOf = Function.update s.childrenOf p (s.created :: s.childrenOf p) := by
    funext q
    unfold State.childrenOf
    rw [htrackers]
    by_cases hqp : q = p
    · subst hqp
      simp [hp]
    · rw [update_of_ne hqp, update_of_ne hqp]
      by_cases heq : q = s.created
      · subst heq
        simp [newTracker, hnew]
      · simp [heq]
  have hout : ∀ q, s.created ∉ s.childrenOf q := by
    intro q hmem
    obtain ⟨child, hchild, -⟩ := h.child hmem
    exact absurd (hchild.symm.trans hnew) (by simp)
  refine ⟨fun q c => ?_, fun q => ?_, fun q c hq => ?_, fun n hn => ?_⟩
  · rw [hparentOf, hchildrenOf]
    have hlink := h.links q c
    by_cases heq : c = s.created
    · subst heq
      rw [update_self]
      by_cases hqp : q = p
      · subst hqp
        simp
      · rw [update_of_ne hqp]
        refine iff_of_false (hout q) fun hno => hqp ?_
        have hpq := hno.1
        simp only [Option.some.injEq] at hpq
        exact hpq.symm
    · rw [update_of_ne heq, ← hlink]
      by_cases hqp : q = p
      · subst hqp
        simp [heq]
      · rw [update_of_ne hqp]
  · rw [hchildrenOf]
    by_cases hqp : q = p
    · subst hqp
      rw [update_self]
      exact List.nodup_cons.mpr ⟨hout q, h.nodup q⟩
    · rw [update_of_ne hqp]
      exact h.nodup q
  · rw [hparentOf] at hq
    by_cases heq : c = s.created
    · subst heq
      rw [update_self] at hq
      simp only [Option.some.injEq] at hq
      omega
    · rw [update_of_ne heq] at hq
      exact h.older q c hq
  · rw [htrackers, update_of_ne (by omega), update_of_ne (by omega)]
    exact h.fresh n (by omega)

theorem JoinOk.addTracker_cases (h : JoinOk s) (kernelParent : Bool)
    (hruns : ∀ t, current = some t → s.Runs t) :
    Tree none (s.addTracker stackPtr current kernelParent) ∧
      ∀ q tracker', (s.addTracker stackPtr current kernelParent).trackers q = some tracker' →
        (q = s.created ∧ tracker'.key = s.nextTid ∧ tracker'.task.isSome ∧
          tracker'.waitInfo = none) ∨
        ∃ tracker, s.trackers q = some tracker ∧ q ≠ s.created ∧ tracker'.key = tracker.key ∧
          tracker'.task = tracker.task ∧ tracker'.waitInfo = tracker.waitInfo ∧
          (tracker'.children = tracker.children ∨ tracker'.waitInfo = none) := by
  cases hparent : (if kernelParent then none else current) with
  | none =>
    have htrackers := addTracker_trackers_none (s := s) stackPtr hparent
    refine ⟨h.tree.create_none htrackers rfl, fun q tracker' hq => ?_⟩
    rw [htrackers] at hq
    by_cases heq : q = s.created
    · subst heq
      rw [update_self] at hq
      obtain rfl := Option.some.inj hq
      exact Or.inl ⟨rfl, rfl, rfl, rfl⟩
    · rw [update_of_ne heq] at hq
      exact Or.inr ⟨tracker', hq, heq, rfl, rfl, rfl, Or.inl rfl⟩
  | some p =>
    have hcurrent : current = some p := by
      cases kernelParent with
      | true => exact absurd hparent (by simp)
      | false => exact hparent
    obtain ⟨-, tracker, hp, hwait⟩ := hruns p hcurrent
    have hlt := h.tree.lt_created hp
    have htrackers := addTracker_trackers_some stackPtr hparent hp (by omega)
    refine ⟨h.tree.create_some hp htrackers rfl, fun q tracker' hq => ?_⟩
    rw [htrackers] at hq
    by_cases hqp : q = p
    · subst hqp
      rw [update_self] at hq
      obtain rfl := Option.some.inj hq
      exact Or.inr ⟨tracker, hp, by omega, rfl, rfl, rfl, Or.inr hwait⟩
    · rw [update_of_ne hqp] at hq
      by_cases heq : q = s.created
      · subst heq
        rw [update_self] at hq
        obtain rfl := Option.some.inj hq
        exact Or.inl ⟨rfl, rfl, rfl, rfl⟩
      · rw [update_of_ne heq] at hq
        exact Or.inr ⟨tracker', hq, heq, rfl, rfl, rfl, Or.inl rfl⟩

theorem addTracker_tasks : (s.addTracker stackPtr current kernelParent).tasks
    = Function.update s.tasks s.created (some ⟨s.nextTid, stackPtr, .ready, false, 0⟩) := by
  unfold State.addTracker
  exact (SameRest.insertTracker _ _ _).tasks

theorem JoinOk.addTracker (h : JoinOk s) (hruns : ∀ t, current = some t → s.Runs t) :
    JoinOk (s.addTracker stackPtr current kernelParent) := by
  obtain ⟨htree, hcases⟩ := h.addTracker_cases stackPtr kernelParent hruns
  refine ⟨htree, fun t task tracker' ht htracker => ?_, fun t tracker' htracker => ?_, ?_, ?_⟩
  · rw [addTracker_tasks] at ht
    rcases hcases t tracker' htracker with ⟨heq, hkey, -⟩ | ⟨tracker, hold, hne, hkey, -⟩
    · rw [heq, update_self] at ht
      obtain rfl := Option.some.inj ht
      exact hkey
    · rw [update_of_ne hne] at ht
      rw [hkey]
      exact h.keys t task tracker ht hold
  · rcases hcases t tracker' htracker with ⟨-, hkey, -⟩ | ⟨tracker, hold, -, hkey, -⟩
    · rw [hkey]
      exact h.next_lt
    · rw [hkey]
      exact h.keys_lt t tracker hold
  · show (s.nextTid + 1) % 2 ^ 16 < 2 ^ 16
    exact Nat.mod_lt _ (by norm_num)
  · intro q tracker' wait hq hwait c hc child' hchild htask
    rcases hcases q tracker' hq with ⟨-, -, -, hnone⟩ | ⟨tracker, hold, -, -, -, hsame, hlist⟩
    · exact absurd (hwait.symm.trans hnone) (by simp)
    · rcases hlist with hlist | hnone
      · rcases hcases c child' hchild with ⟨-, -, hsome, -⟩ | ⟨child, hcold, -, hkey, htask', -⟩
        · rw [htask] at hsome
          exact absurd hsome (by simp)
        · rw [hkey]
          rw [hlist] at hc
          exact h.joined q tracker wait hold (hsame.symm.trans hwait) c hc child hcold
            (htask'.symm.trans htask)
      · exact absurd (hwait.symm.trans hnone) (by simp)

theorem JoinOk.createTask {withStack : Bool} (h : JoinOk s)
    (hruns : ∀ t, current = some t → s.Runs t)
    (hexec : s.createTask current withStack kernelParent = some s') : JoinOk s' := by
  rcases State.createTask_cases hexec with ⟨-, rfl⟩ | ⟨-, -, stackPtr, node, -, rfl⟩
  · exact h.addTracker 0 hruns
  · apply JoinOk.addTracker
    · exact h.congr ⟨rfl, SameTids.of_tasks rfl, rfl, rfl⟩
    · exact hruns

end Create

/-! ### The end of a task -/

/-- The invariant while the task `t` ends: its tracker is finished, and its parent may
wait for it. -/
structure EndOk (t : Nat) (s : State) : Prop where
  tree : Tree none s
  keys : KeysOk s
  joined : JoinedBut (some t) s

theorem EndOk.congr (h : EndOk t s) (hs : SameTree s s') : EndOk t s' := by
  refine ⟨h.tree.congr hs.trackers hs.created, h.keys.congr hs, ?_⟩
  unfold JoinedBut
  rw [hs.trackers]
  exact h.joined

/-- An update of one tracker that keeps its key and its children, and its wait or has no
wait any more. -/
theorem EndOk.setTracker {n : Nat} {old new : Tracker} (htree : Tree none s) (hkeys : KeysOk s)
    (hjoined : JoinedBut (some t) s) (hn : s.trackers n = some old)
    (hparent : new.parent = old.parent) (hchildren : new.children = old.children)
    (hkey : new.key = old.key) (hwait : new.waitInfo = old.waitInfo ∨ new.waitInfo = none)
    (htask : new.task = old.task ∨ n = t) : EndOk t (s.setTracker n new) := by
  have hkept : ∀ q qtracker, (s.setTracker n new).trackers q = some qtracker →
      ∃ qold, s.trackers q = some qold ∧ qtracker.children = qold.children ∧
        qtracker.key = qold.key ∧ (qtracker.waitInfo = qold.waitInfo ∨ qtracker.waitInfo = none) ∧
        (qtracker.task = qold.task ∨ q = t) := by
    intro q qtracker hq
    rw [State.setTracker_trackers] at hq
    by_cases heq : q = n
    · subst heq
      rw [update_self] at hq
      obtain rfl := Option.some.inj hq
      exact ⟨old, hn, hchildren, hkey, hwait, htask⟩
    · rw [update_of_ne heq] at hq
      exact ⟨qtracker, hq, rfl, rfl, Or.inl rfl, Or.inl rfl⟩
  refine ⟨htree.setTracker hn hparent hchildren, ⟨fun q qtask qtracker hq hqtracker => ?_,
    fun q qtracker hqtracker => ?_, hkeys.next_lt⟩, ?_⟩
  · obtain ⟨qold, hqold, -, hqkey, -⟩ := hkept q qtracker hqtracker
    rw [hqkey]
    exact hkeys.keys q qtask qold hq hqold
  · obtain ⟨qold, hqold, -, hqkey, -⟩ := hkept q qtracker hqtracker
    rw [hqkey]
    exact hkeys.keys_lt q qold hqold
  · intro q qtracker wait hq hqwait c hc hct child hchild hfinished
    obtain ⟨qold, hqold, hqchildren, -, hqwait', -⟩ := hkept q qtracker hq
    obtain ⟨cold, hcold, -, hckey, -, hctask⟩ := hkept c child hchild
    have hctask' : child.task = cold.task := by
      rcases hctask with hsame | heq
      · exact hsame
      · exact absurd (by rw [heq]) hct
    rcases hqwait' with hsame | hnone
    · rw [hckey]
      rw [hqchildren] at hc
      exact hjoined q qold wait hqold (hsame.symm.trans hqwait) c hc hct cold hcold
        (hctask'.symm.trans hfinished)
    · exact absurd (hqwait.symm.trans hnone) (by simp)

theorem JoinOk.finishTracker (h : JoinOk s) (ht : s.trackers t = some tracker) (retval : Nat)
    (status : TaskStatus) : EndOk t (s.finishTracker t tracker retval status) := by
  have hbut : JoinedBut (some t) s := by
    intro p ptracker wait hp hwait c hc _ child hchild hfinished
    exact h.joined p ptracker wait hp hwait c hc child hchild hfinished
  exact EndOk.setTracker h.tree h.keysOk hbut ht rfl rfl rfl (Or.inl rfl) (Or.inr rfl)

/-- The tracker is removed, and its finished children do not match a wait of the
parent. -/
theorem EndOk.removeTracker (h : EndOk t s) (ht : s.trackers t = some tracker)
    (hremove : s.removeTracker t = some s')
    (hkids : ∀ p ptracker wait, tracker.parent = some p → s.trackers p = some ptracker →
      ptracker.waitInfo = some wait → ∀ c ∈ tracker.children, ∀ child, s.trackers c = some child →
      child.task = none → ¬ wait.Matches child.key) : JoinOk s' := by
  have hrest := removeTracker_sameRest hremove
  obtain ⟨htree', hnone, hshrinks⟩ := h.tree.removeTracker ht hremove
  apply (h.keys.shrinks (SameTids.of_tasks hrest.tasks) hshrinks hrest.nextTid).joinOk htree'
  exact h.joined.shrinks hshrinks hnone hkids

theorem EndOk.keep (h : EndOk t s) (ht : s.trackers t = some tracker)
    (hno : ∀ p ptracker wait, tracker.parent = some p → s.trackers p = some ptracker →
      ptracker.waitInfo = some wait → ¬ wait.Matches tracker.key) : JoinOk s := by
  apply h.keys.joinOk h.tree
  intro q qtracker wait hq hwait c hc child hchild hfinished
  by_cases hct : c = t
  · subst hct
    obtain rfl := Option.some.inj (hchild.symm.trans ht)
    rw [← State.childrenOf_of_some hq] at hc
    have hlink := ((h.tree.links q c).mp hc).1
    rw [State.parentOf_of_some ht] at hlink
    exact hno q qtracker wait (Option.some.inj hlink) hq hwait
  · exact h.joined q qtracker wait hq hwait c hc (by simpa using hct) child hchild hfinished

theorem JoinOk.join {retval : Nat} {status : TaskStatus} (h : JoinOk s)
    (htask : s.tasks t = some task) (ht : s.trackers t = some tracker)
    (hfine : ∀ p parent wait, task.detached → tracker.parent = some p →
      s.trackers p = some parent → parent.waitInfo = some wait → ∀ c ∈ tracker.children,
      ∀ child, s.trackers c = some child → child.task = none → ¬ wait.Matches child.key)
    (hexec : (s.finishTracker t tracker retval status).join t task tracker retval status
      = some s') : JoinOk s' := by
  have hend := h.finishTracker ht retval status
  have hself : (s.finishTracker t tracker retval status).trackers t
      = some { tracker with status := status.value, retval := retval, task := none } :=
    update_self _ _ _
  have hother : ∀ q, q ≠ t →
      (s.finishTracker t tracker retval status).trackers q = s.trackers q := by
    intro q hq
    exact update_of_ne hq _ _
  have hchild_ne : ∀ c ∈ tracker.children, c ≠ t := by
    intro c hc
    rw [← State.childrenOf_of_some ht] at hc
    have hlt := h.tree.child_gt hc
    omega
  have hparent_ne : ∀ p, tracker.parent = some p → p ≠ t := by
    intro p hp
    have hlt := h.tree.older p t (by rw [State.parentOf_of_some ht, hp])
    omega
  generalize s.finishTracker t tracker retval status = s0 at hend hself hother hexec
  unfold State.join at hexec
  by_cases hdetached : task.detached = true
  · -- A detached task: its children move to the parent, which may be blocked.
    rw [if_pos hdetached] at hexec
    by_cases hcrashed : status = .crashed
    · rw [if_pos hcrashed] at hexec
      exact absurd hexec (by simp)
    rw [if_neg hcrashed] at hexec
    apply hend.removeTracker hself hexec
    intro p ptracker wait hp hptracker hwait c hc child hchild
    rw [hother p (hparent_ne p hp)] at hptracker
    rw [hother c (hchild_ne c hc)] at hchild
    exact hfine p ptracker wait hdetached hp hptracker hwait c hc child hchild
  rw [if_neg hdetached] at hexec
  cases hp : tracker.parent with
  | none =>
    simp only [hp] at hexec
    by_cases hcrashed : status = .crashed
    · rw [if_pos hcrashed] at hexec
      exact absurd hexec (by simp)
    rw [if_neg hcrashed] at hexec
    apply hend.removeTracker hself hexec
    intro p ptracker wait hno
    exact absurd (hp.symm.trans hno) (by simp)
  | some p =>
    simp only [hp] at hexec
    cases hparent : s0.trackers p with
    | none =>
      simp only [hparent] at hexec
      exact absurd hexec (by simp)
    | some parent =>
      simp only [hparent] at hexec
      cases hwait : parent.waitInfo with
      | none =>
        simp only [hwait] at hexec
        obtain rfl := Option.some.inj hexec
        apply hend.keep hself
        intro q qtracker wait hq hqtracker hqwait
        obtain rfl := Option.some.inj (hp.symm.trans hq)
        obtain rfl := Option.some.inj (hqtracker.symm.trans hparent)
        exact absurd (hqwait.symm.trans hwait) (by simp)
      | some wait =>
        simp only [hwait] at hexec
        by_cases hmatches : wait.Matches task.tid
        · -- The parent waits for the task: its wait is over before the children move.
          rw [if_pos hmatches] at hexec
          split at hexec
          · exact absurd hexec (by simp)
          rename_i parentTask hptask
          obtain ⟨s1, hremove, rfl⟩ := Option.map_eq_some_iff.mp hexec
          refine JoinOk.congr ?_ (SameTree.addTask s1 parentTask)
          have hstored := (hend.congr (SameTree.store s0 wait.status status.value)).congr
            (SameTree.store _ wait.retval retval)
          have htrackers : ((s0.store wait.status status.value).store wait.retval
              retval).trackers = s0.trackers :=
            (SameTree.store _ _ _).trackers.trans (SameTree.store _ _ _).trackers
          generalize (s0.store wait.status status.value).store wait.retval retval = s2
            at hstored htrackers hremove
          have hold : s2.trackers p = some parent := by
            rw [htrackers]
            exact hparent
          have hcleared : EndOk t (s2.setTracker p { parent with waitInfo := none }) :=
            EndOk.setTracker hstored.tree hstored.keys hstored.joined hold rfl rfl rfl
              (Or.inr rfl) (Or.inl rfl)
          have hrtn := SameTree.taskSetRtn (s2.setTracker p { parent with waitInfo := none })
            parentTask task.tid
          have ht2 : ((s2.setTracker p { parent with waitInfo := none }).taskSetRtn parentTask
              task.tid).trackers t
                = some { tracker with status := status.value, retval := retval, task := none } := by
            rw [hrtn.trackers, State.setTracker_trackers,
              update_of_ne (Ne.symm (hparent_ne p hp)), htrackers]
            exact hself
          refine EndOk.removeTracker (hcleared.congr hrtn) ht2 hremove ?_
          intro q qtracker wait' hq hqtracker hqwait
          obtain rfl := Option.some.inj (hp.symm.trans hq)
          rw [hrtn.trackers, State.setTracker_trackers, update_self] at hqtracker
          obtain rfl := Option.some.inj hqtracker
          exact absurd hqwait (by simp)
        · rw [if_neg hmatches] at hexec
          obtain rfl := Option.some.inj hexec
          apply hend.keep hself
          intro q qtracker wait' hq hqtracker hqwait
          obtain rfl := Option.some.inj (hp.symm.trans hq)
          obtain rfl := Option.some.inj (hqtracker.symm.trans hparent)
          obtain rfl := Option.some.inj (hqwait.symm.trans hwait)
          show ¬ wait'.Matches tracker.key
          rw [h.keys t task tracker htask ht]
          exact hmatches

theorem JoinOk.endTask {retval : Nat} {status : TaskStatus} (h : JoinOk s)
    (hfine : Op.Fine s (.endTask t retval status)) (hexec : s.endTask t retval status = some s') :
    JoinOk s' := by
  unfold State.endTask at hexec
  cases htask : s.tasks t with
  | none =>
    simp only [htask] at hexec
    exact absurd hexec (by simp)
  | some task =>
    cases ht : s.trackers t with
    | none =>
      simp only [htask, ht] at hexec
      exact absurd hexec (by simp)
    | some tracker =>
      simp only [htask, ht] at hexec
      cases hjoin : (s.finishTracker t tracker retval status).join t task tracker retval status with
      | none =>
        simp only [hjoin] at hexec
        exact absurd hexec (by simp)
      | some s1 =>
        simp only [hjoin] at hexec
        have hjoined : JoinOk s1 := by
          apply h.join htask ht _ hjoin
          intro p parent wait hdetached hp hparent hwait
          exact hfine task tracker p parent wait htask hdetached ht hp hparent hwait
        cases hstack : s1.deleteStack task.tid with
        | none =>
          simp only [hstack] at hexec
          exact absurd hexec (by simp)
        | some s2 =>
          simp only [hstack] at hexec
          obtain rfl := Option.some.inj hexec
          exact (hjoined.congr (SameTree.deleteStack hstack)).congr (SameTree.deleteTask s2 t)

/-! ### Waits -/

theorem finished_iff {c : Nat} {child : Tracker} (hc : s.trackers c = some child) :
    s.finished c = true ↔ child.task = none := by
  simp [State.finished, hc]

theorem JoinOk.not_finished {tid : Int} (h : JoinOk s)
    (hfine : ∀ tracker c c' child child', s.trackers t = some tracker →
      c ∈ tracker.children → c' ∈ tracker.children → s.trackers c = some child →
      s.trackers c' = some child' → (child.key : Int) = tid → (child'.key : Int) = tid →
      child.task = none → child'.task = none)
    (ht : s.trackers t = some tracker) (hfind : s.findChild tracker tid = some none) :
    ∀ c ∈ tracker.children, ∀ child, s.trackers c = some child → child.task = none →
      ¬ (tid < 0 ∨ tid = child.key) := by
  intro c hc child hchild hfinished hmatches
  unfold State.findChild at hfind
  by_cases hany : tid < 0
  · rw [if_pos hany, if_neg (List.ne_nil_of_mem hc)] at hfind
    have hnone := List.find?_eq_none.mp (Option.some.inj hfind) c hc
    exact hnone ((finished_iff hchild).mpr hfinished)
  · rw [if_neg hany] at hfind
    have hkey : tid = child.key := by
      rcases hmatches with hneg | heq
      · exact absurd hneg hany
      · exact heq
    dsimp only at hfind
    split at hfind
    · exact absurd hfind (by simp)
    · rename_i c' hfound
      have hmem := List.mem_of_find?_eq_some hfound
      have hany' := List.find?_some hfound
      obtain ⟨child', hchild', hkey'⟩ := (Option.any_eq_true _ _).mp hany'
      have hlt := h.keys_lt c child hchild
      replace hkey' : child'.key = tid.toNat % 2 ^ 16 := by simpa using hkey'
      have hsame : (child'.key : Int) = tid := by omega
      have hfinished' := hfine tracker c c' child child' ht hc hmem hchild hchild' hkey.symm hsame
        hfinished
      rw [if_pos ((finished_iff hchild').mpr hfinished')] at hfind
      exact absurd hfind (by simp)

theorem findChild_mem {tid : Int} {c : Nat} (hfind : s.findChild tracker tid = some (some c)) :
    c ∈ tracker.children := by
  unfold State.findChild at hfind
  split_ifs at hfind
  · exact List.mem_of_find?_eq_some (Option.some.inj hfind)
  · dsimp only at hfind
    split at hfind
    · exact absurd hfind (by simp)
    · rename_i c' hfound
      by_cases hfinished : s.finished c' = true
      · rw [if_pos hfinished] at hfind
        obtain rfl : c' = c := by simpa using hfind
        exact List.mem_of_find?_eq_some hfound
      · rw [if_neg hfinished] at hfind
        exact absurd hfind (by simp)

theorem JoinOk.block {wait : TaskWait} (h : JoinOk s) (ht : s.trackers t = some tracker)
    (hno : ∀ c ∈ tracker.children, ∀ child, s.trackers c = some child → child.task = none →
      ¬ wait.Matches child.key) :
    JoinOk (s.setTracker t { tracker with waitInfo := some wait }) := by
  have hkept : ∀ q qtracker,
      (s.setTracker t { tracker with waitInfo := some wait }).trackers q = some qtracker →
      ∃ old, s.trackers q = some old ∧ qtracker.children = old.children ∧
        qtracker.key = old.key ∧ qtracker.task = old.task ∧
        (qtracker.waitInfo = old.waitInfo ∨ (q = t ∧ qtracker.waitInfo = some wait)) := by
    intro q qtracker hq
    rw [State.setTracker_trackers] at hq
    by_cases heq : q = t
    · subst heq
      rw [update_self] at hq
      obtain rfl := Option.some.inj hq
      exact ⟨tracker, ht, rfl, rfl, rfl, Or.inr ⟨rfl, rfl⟩⟩
    · rw [update_of_ne heq] at hq
      exact ⟨qtracker, hq, rfl, rfl, rfl, Or.inl rfl⟩
  refine ⟨h.tree.setTracker ht rfl rfl, fun q task qtracker hq hqtracker => ?_,
    fun q qtracker hqtracker => ?_, h.next_lt, ?_⟩
  · obtain ⟨old, hold, -, hkey, -⟩ := hkept q qtracker hqtracker
    rw [hkey]
    exact h.keys q task old hq hold
  · obtain ⟨old, hold, -, hkey, -⟩ := hkept q qtracker hqtracker
    rw [hkey]
    exact h.keys_lt q old hold
  · intro q qtracker wait' hq hwait c hc child hchild hfinished
    obtain ⟨old, hold, hchildren, -, -, hwait'⟩ := hkept q qtracker hq
    obtain ⟨cold, hcold, -, hkey, htask, -⟩ := hkept c child hchild
    rw [hkey]
    rw [hchildren] at hc
    rcases hwait' with hsame | ⟨rfl, hnew⟩
    · exact h.joined q old wait' hold (hsame.symm.trans hwait) c hc cold hcold
        (htask.symm.trans hfinished)
    · obtain rfl := Option.some.inj (hold.symm.trans ht)
      obtain rfl := Option.some.inj (hwait.symm.trans hnew)
      exact hno c hc cold hcold (htask.symm.trans hfinished)

theorem JoinOk.waitTask {tid : Int} {status retval : Option Nat} (h : JoinOk s)
    (hruns : s.Runs t) (hfine : Op.Fine s (.waitTask t tid status retval))
    (hexec : s.waitTask t tid status retval = some s') : JoinOk s' := by
  obtain ⟨htask, tracker, ht, hwait⟩ := hruns
  obtain ⟨task, htask⟩ := Option.isSome_iff_exists.mp htask
  unfold State.waitTask at hexec
  simp only [htask, ht] at hexec
  cases hfind : s.findChild tracker tid with
  | none =>
    simp only [hfind] at hexec
    obtain rfl := Option.some.inj hexec
    exact h.congr (SameTree.taskSetRtn s t _)
  | some found =>
    simp only [hfind] at hexec
    cases found with
    | none =>
      -- The task blocks.
      obtain rfl := Option.some.inj hexec
      have hblocked : JoinOk
          (s.setTracker t { tracker with waitInfo := some ⟨tid, status, retval⟩ }) :=
        h.block ht (h.not_finished hfine ht hfind)
      have htask' : (s.setTracker t { tracker with
          waitInfo := some ⟨tid, status, retval⟩ }).tasks t = some task := htask
      exact hblocked.congr ⟨rfl, SameTids.setTask htask' rfl, rfl, rfl⟩
    | some c =>
      dsimp only at hexec
      have hmem : c ∈ s.childrenOf t := by
        rw [State.childrenOf_of_some ht]
        exact findChild_mem hfind
      obtain ⟨child, hchild, hparent⟩ := h.tree.child hmem
      rw [hchild] at hexec
      dsimp only at hexec
      have hsame := SameTree.taskSetRtn s t child.key
      have hend : EndOk c s := ⟨h.tree, h.keysOk, fun p ptracker wait hp hpwait c' hc' _ => by
        exact h.joined p ptracker wait hp hpwait c' hc'⟩
      have hend' := ((hend.congr hsame).congr (SameTree.store _ status child.status)).congr
        (SameTree.store _ retval child.retval)
      have htrackers : ((((s.taskSetRtn t child.key).store status child.status).store retval
          child.retval)).trackers = s.trackers :=
        ((SameTree.store _ _ _).trackers.trans (SameTree.store _ _ _).trackers).trans hsame.trackers
      generalize ((s.taskSetRtn t child.key).store status child.status).store retval child.retval
        = s1 at hexec hend' htrackers
      rw [← htrackers] at hchild ht
      refine hend'.removeTracker hchild hexec ?_
      intro p ptracker wait hp hptracker hpwait
      obtain rfl := Option.some.inj (hparent.symm.trans hp)
      obtain rfl := Option.some.inj (hptracker.symm.trans ht)
      exact absurd (hpwait.symm.trans hwait) (by simp)

end Ops

/-! ## Runs -/

theorem JoinOk.step {s s' : State} {op : Op} (h : JoinOk s) (hstep : FineStep s op s') :
    JoinOk s' := by
  obtain ⟨⟨hallowed, hexec⟩, hfine⟩ := hstep
  cases op with
  | create current withStack kernelParent => exact h.createTask hallowed hexec
  | detach t => exact h.taskDetach hexec
  | endTask t retval status => exact h.endTask hfine hexec
  | waitTask t tid status retval => exact h.waitTask hallowed hfine hexec

theorem JoinOk.init : JoinOk State.init := by
  refine ⟨⟨?_, ?_, ?_, fun c _ => rfl⟩, ?_, ?_, by decide, ?_⟩
  · intro p c
    simp [State.childrenOf, State.parentOf, State.init]
  · intro p
    simp [State.childrenOf, State.init]
  · intro p c hc
    simp [State.parentOf, State.init] at hc
  · intro t task tracker ht
    exact absurd ht (by simp [State.init])
  · intro t tracker ht
    exact absurd ht (by simp [State.init])
  · intro p tracker wait hp
    exact absurd hp (by simp [State.init])

end Hostboot.TaskMgr
