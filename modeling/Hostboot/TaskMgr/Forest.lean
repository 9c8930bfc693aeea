import Hostboot.TaskMgr.Join
import Hostboot.TaskMgr.Tids

/-!
# The trackers of live tasks

`forest_of_run` is about every run, also one in which a task is never woken.  The
trackers are a forest, and those that point to a task are the trackers of the live
tasks: `removeTracker`, which calls itself for the finished children of a task, never
deletes the tracker of a live task, and leaves none behind that points to a dead one.
-/

namespace Hostboot.TaskMgr

open Hostboot.Lib Hostboot.Util
open Function (update update_eq_self update_of_ne update_self)

/-- The task that a tracker points to. -/
def State.taskOf (s : State) (n : Nat) : Option Nat := (s.trackers n).bind Tracker.task

section TaskOf

variable {s s' : State} {t n : Nat}

theorem taskOf_of_some {tracker : Tracker} (h : s.trackers n = some tracker) :
    s.taskOf n = tracker.task := by
  simp [State.taskOf, h]

theorem taskOf_congr (h : s'.trackers = s.trackers) : s'.taskOf = s.taskOf := by
  unfold State.taskOf
  rw [h]

theorem taskOf_setTracker (s : State) (n : Nat) (tracker : Tracker) :
    (s.setTracker n tracker).taskOf = update s.taskOf n tracker.task := by
  funext q
  by_cases heq : q = n
  · simp [State.taskOf, heq]
  · simp [State.taskOf, heq]

theorem taskOf_setTracker_of_some {old new : Tracker} (h : s.trackers n = some old)
    (htask : new.task = old.task) : (s.setTracker n new).taskOf = s.taskOf := by
  rw [taskOf_setTracker, htask, ← taskOf_of_some h, update_eq_self]

theorem taskOf_deleteTracker (s : State) (n : Nat) :
    (s.deleteTracker n).taskOf = update s.taskOf n none := by
  funext q
  by_cases heq : q = n
  · simp [State.taskOf, heq]
  · simp [State.taskOf, heq]

theorem taskOf_setParent (s : State) (c : Nat) (parent : Option Nat) :
    (s.setParent c parent).taskOf = s.taskOf := by
  unfold State.setParent
  split
  · rfl
  · rename_i tracker htracker
    exact taskOf_setTracker_of_some htracker rfl

theorem taskOf_insertTracker (s : State) (parent : Option Nat) (c : Nat) :
    (s.insertTracker parent c).taskOf = s.taskOf := by
  unfold State.insertTracker
  split
  · rfl
  · split
    · rfl
    · rename_i tracker htracker
      exact taskOf_setTracker_of_some htracker rfl

theorem taskOf_eraseTracker (s : State) (parent : Option Nat) (c : Nat) :
    (s.eraseTracker parent c).taskOf = s.taskOf := by
  unfold State.eraseTracker
  split
  · rfl
  · split
    · rfl
    · rename_i tracker htracker
      exact taskOf_setTracker_of_some htracker rfl

theorem taskOf_of_finished (h : s.finished n = true) : s.taskOf n = none := by
  unfold State.finished at h
  unfold State.taskOf
  split at h
  · cases h
  · rename_i tracker htracker
    rw [htracker]
    exact Option.isNone_iff_eq_none.mp h

theorem finished_of_findChild {tracker : Tracker} {tid : Int} {c : Nat}
    (h : s.findChild tracker tid = some (some c)) : s.finished c = true := by
  unfold State.findChild at h
  split_ifs at h
  · exact List.find?_some (Option.some.inj h)
  · dsimp only at h
    split at h
    · cases h
    · rename_i c' hfound
      by_cases hfinished : s.finished c' = true
      · rw [if_pos hfinished] at h
        cases h
        exact hfinished
      · rw [if_neg hfinished] at h
        cases h

/-- The loop deletes the tracker, and otherwise only trackers of finished tasks. -/
theorem taskOf_drain {fuel : Nat} (h : drain fuel s t = some s') :
    s'.taskOf = update s.taskOf t none := by
  induction fuel generalizing s t s' with
  | zero => exact absurd h (by simp [drain])
  | succ fuel ih =>
    rw [drain] at h
    split at h
    · exact absurd h (by simp)
    · rename_i tracker htracker
      split at h
      · obtain rfl := Option.some.inj h
        exact taskOf_deleteTracker s t
      · rename_i child rest hremove
        have htaken : ((s.setTracker t { tracker with children := rest }).setParent child
            tracker.parent).taskOf = s.taskOf :=
          (taskOf_setParent _ _ _).trans (taskOf_setTracker_of_some htracker rfl)
        dsimp only at h
        generalize (s.setTracker t { tracker with children := rest }).setParent child
          tracker.parent = taken at h htaken
        split_ifs at h with hfinished
        · obtain ⟨s1, hs1, h⟩ := Option.bind_eq_some_iff.mp h
          have hchild := taskOf_of_finished hfinished.2
          have hsame : update taken.taskOf child none = taken.taskOf := by
            rw [← hchild, update_eq_self]
          rw [ih h, ih hs1, taskOf_eraseTracker, hsame, htaken]
        · rw [ih h, taskOf_insertTracker, htaken]

theorem taskOf_removeTracker (h : s.removeTracker t = some s') :
    s'.taskOf = update s.taskOf t none := by
  unfold State.removeTracker at h
  split at h
  · exact absurd h (by simp)
  · rw [taskOf_drain h, taskOf_eraseTracker]

end TaskOf

/-! ## Parts of the operations -/

/-- No task starts or ends, and the links stay in order. -/
structure Keeps (s s' : State) : Prop where
  tree : Tree none s → Tree none s'
  taskOf : s'.taskOf = s.taskOf
  tasks : ∀ n, (s'.tasks n).isSome = (s.tasks n).isSome

namespace Keeps

variable {s s' s'' : State} {t n : Nat}

theorem trans (h : Keeps s s') (h' : Keeps s' s'') : Keeps s s'' :=
  ⟨fun htree => h'.tree (h.tree htree), h'.taskOf.trans h.taskOf,
    fun n => (h'.tasks n).trans (h.tasks n)⟩

theorem of_trackers (htrackers : s'.trackers = s.trackers) (hs : SameStacks s s') : Keeps s s' := by
  refine ⟨fun htree => htree.congr htrackers hs.created, taskOf_congr htrackers, fun n => ?_⟩
  rw [← Option.isSome_map, hs.tids n, Option.isSome_map]

theorem store (s : State) (addr : Option Nat) (value : Int) : Keeps s (s.store addr value) :=
  of_trackers (SameTree.store s addr value).trackers (SameStacks.store s addr value)

theorem taskSetRtn (s : State) (n : Nat) (value : Int) : Keeps s (s.taskSetRtn n value) :=
  of_trackers (SameTree.taskSetRtn s n value).trackers (SameStacks.taskSetRtn s n value)

theorem addTask (s : State) (n : Nat) : Keeps s (s.addTask n) :=
  of_trackers (SameTree.addTask s n).trackers (SameStacks.addTask s n)

theorem setTask {task task' : Task} (ht : s.tasks t = some task) (htid : task'.tid = task.tid) :
    Keeps s (s.setTask t task') :=
  of_trackers rfl (SameStacks.setTask ht htid)

theorem setTracker {old new : Tracker} (hn : s.trackers n = some old)
    (hparent : new.parent = old.parent) (hchildren : new.children = old.children)
    (htask : new.task = old.task) : Keeps s (s.setTracker n new) :=
  ⟨fun htree => htree.setTracker hn hparent hchildren, taskOf_setTracker_of_some hn htask,
    fun _ => rfl⟩

theorem removeTracker (ht : s.taskOf t = none) (h : s.removeTracker t = some s') : Keeps s s' := by
  refine ⟨fun htree => ?_, ?_, fun n => by rw [(removeTracker_sameRest h).tasks]⟩
  · cases htracker : s.trackers t with
    | none => simp [State.removeTracker, htracker] at h
    | some tracker => exact (htree.removeTracker htracker h).1
  · rw [taskOf_removeTracker h, ← ht, update_eq_self]

/-- The part of `_endTask` under the lock, for a tracker that is finished. -/
theorem join {task : Task} {tracker : Tracker} {retval : Nat} {status : TaskStatus}
    (ht : s.taskOf t = none) (h : s.join t task tracker retval status = some s') : Keeps s s' := by
  have hself : Keeps s s := ⟨id, rfl, fun _ => rfl⟩
  have hremove : (if status = .crashed then none else s.removeTracker t) = some s' → Keeps s s' := by
    intro h
    split at h
    · cases h
    · exact removeTracker ht h
  unfold State.join at h
  split at h
  · exact hremove h
  split at h
  · exact hremove h
  rename_i p _
  split at h
  · cases h
  rename_i parent hp
  split at h
  · cases h
    exact hself
  rename_i wait hwait
  split at h
  · split at h
    · cases h
    · rename_i parentTask hparentTask
      obtain ⟨s1, hremoved, rfl⟩ := Option.map_eq_some_iff.mp h
      have hstored := (store s wait.status status.value).trans (store _ wait.retval retval)
      have hp' : ((s.store wait.status status.value).store wait.retval retval).trackers p =
          some parent := by
        rw [(SameTree.store _ _ _).trackers, (SameTree.store _ _ _).trackers, hp]
      have hwaits : Keeps _ (State.setTracker _ p { parent with waitInfo := none }) :=
        setTracker hp' rfl rfl rfl
      have hcleared := (hstored.trans hwaits).trans (taskSetRtn _ parentTask task.tid)
      refine (hcleared.trans (removeTracker ?_ hremoved)).trans (addTask s1 parentTask)
      rw [hcleared.taskOf, ht]
  · cases h
    exact hself

end Keeps

/-! ## Runs -/

/-- The trackers are a forest, and a tracker points to its task while the task is
alive, and to none after it. -/
structure Forest (s : State) : Prop where
  tree : Tree none s
  live : ∀ n, s.taskOf n = if (s.tasks n).isSome then some n else none

namespace Forest

variable {s s' : State} {t : Nat}

theorem keeps (h : Forest s) (hk : Keeps s s') : Forest s' := by
  refine ⟨hk.tree h.tree, fun n => ?_⟩
  rw [hk.taskOf, hk.tasks, h.live]

theorem addTracker {current : Option Nat} (h : Forest s) (stackPtr : Nat) (kernelParent : Bool)
    (hruns : ∀ t, current = some t → s.Runs t) :
    Forest (s.addTracker stackPtr current kernelParent) := by
  have hnew : Tree none (s.addTracker stackPtr current kernelParent) ∧
      (s.addTracker stackPtr current kernelParent).taskOf =
        update s.taskOf s.created (some s.created) := by
    cases hparent : (if kernelParent then none else current) with
    | none =>
      have htrackers := addTracker_trackers_none (s := s) stackPtr hparent
      refine ⟨h.tree.create_none htrackers rfl, ?_⟩
      exact (taskOf_congr htrackers).trans (taskOf_setTracker s s.created (newTracker s none))
    | some p =>
      have hcurrent : current = some p := by
        cases kernelParent with
        | true => exact absurd hparent (by simp)
        | false => exact hparent
      obtain ⟨-, tracker, hp, -⟩ := hruns p hcurrent
      have hlt := h.tree.lt_created hp
      have hne : p ≠ s.created := by omega
      have htrackers := addTracker_trackers_some stackPtr hparent hp hne
      refine ⟨h.tree.create_some hp htrackers rfl, ?_⟩
      have hp' : (s.setTracker s.created (newTracker s (some p))).trackers p = some tracker := by
        rw [State.setTracker_trackers, update_of_ne hne, hp]
      have hsame := taskOf_setTracker_of_some hp'
        (show ({ tracker with children := s.created :: tracker.children } : Tracker).task = _ from rfl)
      exact ((taskOf_congr htrackers).trans hsame).trans
        (taskOf_setTracker s s.created (newTracker s (some p)))
  refine ⟨hnew.1, fun n => ?_⟩
  rw [hnew.2, addTracker_tasks]
  by_cases heq : n = s.created
  · simp [heq]
  · simp [heq, h.live]

theorem createTask {current : Option Nat} {withStack kernelParent : Bool} (h : Forest s)
    (hruns : ∀ t, current = some t → s.Runs t)
    (hexec : s.createTask current withStack kernelParent = some s') : Forest s' := by
  rcases State.createTask_cases hexec with ⟨-, rfl⟩ | ⟨-, -, stackPtr, node, -, rfl⟩
  · exact h.addTracker 0 kernelParent hruns
  · refine addTracker ?_ stackPtr kernelParent hruns
    exact h.keeps ⟨fun htree => htree.congr rfl rfl, rfl, fun _ => rfl⟩

theorem endTask {retval : Nat} {status : TaskStatus} (h : Forest s)
    (hexec : s.endTask t retval status = some s') : Forest s' := by
  unfold State.endTask at hexec
  split at hexec
  · rename_i task tracker htask ht
    have htree : Tree none (s.finishTracker t tracker retval status) := h.tree.setTracker ht rfl rfl
    have hfinished : (s.finishTracker t tracker retval status).taskOf =
        update s.taskOf t none := taskOf_setTracker _ _ _
    split at hexec
    · cases hexec
    · rename_i s1 hjoin
      have hkeeps := Keeps.join (by rw [hfinished, update_self]) hjoin
      split at hexec
      · cases hexec
      · rename_i s2 hstack
        obtain rfl := Option.some.inj hexec
        have hsame := SameTree.deleteStack hstack
        have htasks : s2.tasks = s1.tasks := by
          unfold State.deleteStack at hstack
          split at hstack
          · cases hstack
          · cases hstack
            rfl
        refine ⟨(hkeeps.tree htree).congr hsame.trackers hsame.created, fun n => ?_⟩
        have hn : s2.taskOf n = update s.taskOf t none n := by
          rw [taskOf_congr hsame.trackers, hkeeps.taskOf, hfinished]
        show s2.taskOf n = if (update s2.tasks t none n).isSome then some n else none
        by_cases heq : n = t
        · rw [hn, heq]
          simp
        · rw [hn, update_of_ne heq, update_of_ne heq, htasks, hkeeps.tasks]
          exact h.live n
  · cases hexec

theorem waitTask {tid : Int} {status retval : Option Nat} (h : Forest s)
    (hexec : s.waitTask t tid status retval = some s') : Forest s' := by
  unfold State.waitTask at hexec
  split at hexec
  · rename_i task tracker htask ht
    split at hexec
    · cases hexec
      exact h.keeps (Keeps.taskSetRtn s t _)
    · rename_i c hfind
      split at hexec
      · cases hexec
      · rename_i child hchild
        have hstored := ((Keeps.taskSetRtn s t child.key).trans (Keeps.store _ status child.status)).trans
          (Keeps.store _ retval child.retval)
        refine h.keeps (hstored.trans (Keeps.removeTracker ?_ hexec))
        rw [hstored.taskOf]
        exact taskOf_of_finished (finished_of_findChild hfind)
    · cases hexec
      have hwaits : Keeps s (s.setTracker t { tracker with
          waitInfo := some ⟨tid, status, retval⟩ }) := Keeps.setTracker ht rfl rfl rfl
      exact h.keeps (hwaits.trans (Keeps.setTask htask rfl))
  · cases hexec

theorem step {op : Op} (h : Forest s) (hstep : Step s op s') : Forest s' := by
  obtain ⟨hallowed, hexec⟩ := hstep
  cases op with
  | create current withStack kernelParent => exact h.createTask hallowed hexec
  | detach t =>
    simp only [State.exec, State.taskDetach] at hexec
    split at hexec
    · cases hexec
    · rename_i task htask
      cases hexec
      exact h.keeps (Keeps.setTask htask rfl)
  | endTask t retval status => exact h.endTask hexec
  | waitTask t tid status retval => exact h.waitTask hexec

end Forest

end Hostboot.TaskMgr
