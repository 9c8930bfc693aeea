import Mathlib
import Hostboot.Lib.Run
import Hostboot.TaskMgr.Tree

/-!
# The ids of tasks

`iv_nextTid` is a counter of 16 bits, and nobody looks whether a tid is still in use.  The
task created as number `n` has the tid `n % 65536`.  So the tids of live tasks are
different as long as no task is created while a task lives that was created 65536
creations before, or a multiple of that.  Then `createStack` finds no block for the
new tid either.
-/

namespace Hostboot.TaskMgr

open Hostboot.Lib List
open Function (update update_eq_self update_idem update_of_ne update_self)

/-- No two live tasks have the same tid. -/
def UniqueTids (s : State) : Prop :=
  ∀ t t' task task', s.tasks t = some task → s.tasks t' = some task' → task.tid = task'.tid →
    t = t'

/-- The counter has not come back to the tid of a live task. -/
def Op.Apart (s : State) : Op → Prop
  | .create _ _ _ => ∀ t, (s.tasks t).isSome → ¬ (2 ^ 16 ∣ s.created - t)
  | _ => True

/-- A step with the counter apart from the live tasks. -/
def ApartStep (s : State) (op : Op) (s' : State) : Prop := Step s op s' ∧ op.Apart s

/-- The tids come from the counter, and the stacks are those of live tasks. -/
structure TidOk (s : State) : Prop where
  tid : ∀ t task, s.tasks t = some task → task.tid = t % 2 ^ 16
  lt : ∀ t task, s.tasks t = some task → t < s.created
  next : s.nextTid = s.created % 2 ^ 16
  owner : ∀ node ∈ s.blockList, ∃ t task, s.tasks t = some task ∧ node.key = addr8mb task.tid
  nodup : (s.blockList.map StackBlockNode.key).Nodup

theorem addr8mb_injective : Function.Injective addr8mb := by
  intro tid tid' h
  unfold addr8mb MEGABYTE at h
  omega

/-! ## What the operations do to the tasks and the stacks -/

/-- The tids of the live tasks, the stacks and the counter are as before. -/
structure SameStacks (s s' : State) : Prop where
  tids : ∀ t, (s'.tasks t).map Task.tid = (s.tasks t).map Task.tid
  blockList : s'.blockList = s.blockList
  nextTid : s'.nextTid = s.nextTid
  created : s'.created = s.created

namespace SameStacks

variable {s s' s'' : State} {t : Nat}

theorem trans (h : SameStacks s s') (h' : SameStacks s' s'') : SameStacks s s'' :=
  ⟨fun t => (h'.tids t).trans (h.tids t), h'.blockList.trans h.blockList,
    h'.nextTid.trans h.nextTid, h'.created.trans h.created⟩

theorem of_tasks (htasks : s'.tasks = s.tasks) (hblocks : s'.blockList = s.blockList)
    (hnext : s'.nextTid = s.nextTid) (hcreated : s'.created = s.created) : SameStacks s s' :=
  ⟨fun t => by rw [htasks], hblocks, hnext, hcreated⟩

theorem setTask {task task' : Task} (ht : s.tasks t = some task) (htid : task'.tid = task.tid) :
    SameStacks s (s.setTask t task') := by
  refine ⟨fun t' => ?_, rfl, rfl, rfl⟩
  by_cases heq : t' = t
  · subst heq
    simp [State.setTask, ht, htid]
  · simp [State.setTask, heq]

theorem store (s : State) (addr : Option Nat) (value : Int) :
    SameStacks s (s.store addr value) := by
  cases addr <;> exact of_tasks rfl rfl rfl rfl

theorem setTracker (s : State) (n : Nat) (tracker : Tracker) :
    SameStacks s (s.setTracker n tracker) := of_tasks rfl rfl rfl rfl

theorem taskSetRtn (s : State) (n : Nat) (value : Int) : SameStacks s (s.taskSetRtn n value) := by
  unfold State.taskSetRtn
  split
  · exact of_tasks rfl rfl rfl rfl
  · rename_i task htask
    exact setTask htask rfl

theorem addTask (s : State) (n : Nat) : SameStacks s (s.addTask n) := by
  unfold State.addTask
  split
  · exact of_tasks rfl rfl rfl rfl
  · rename_i task htask
    exact setTask htask rfl

theorem removeTracker (h : s.removeTracker t = some s') : SameStacks s s' := by
  have hrest := removeTracker_sameRest h
  exact of_tasks hrest.tasks hrest.blockList hrest.nextTid hrest.created

theorem join {task : Task} {tracker : Tracker} {retval : Nat} {status : TaskStatus}
    (h : s.join t task tracker retval status = some s') : SameStacks s s' := by
  unfold State.join at h
  split at h
  · split at h
    · exact absurd h (by simp)
    · exact removeTracker h
  · split at h
    · split at h
      · exact absurd h (by simp)
      · exact removeTracker h
    · split at h
      · exact absurd h (by simp)
      · split at h
        · obtain rfl := Option.some.inj h
          exact of_tasks rfl rfl rfl rfl
        · split at h
          · split at h
            · exact absurd h (by simp)
            · obtain ⟨s1, hremove, rfl⟩ := Option.map_eq_some_iff.mp h
              apply SameStacks.trans _ (addTask s1 _)
              apply SameStacks.trans _ (removeTracker hremove)
              apply SameStacks.trans _ (taskSetRtn _ _ _)
              apply SameStacks.trans _ (setTracker _ _ _)
              exact (store s _ _).trans (store _ _ _)
          · obtain rfl := Option.some.inj h
            exact of_tasks rfl rfl rfl rfl

theorem waitTask {tid : Int} {status retval : Option Nat}
    (h : s.waitTask t tid status retval = some s') : SameStacks s s' := by
  unfold State.waitTask at h
  split at h
  · rename_i task tracker htask htracker
    split at h
    · obtain rfl := Option.some.inj h
      exact taskSetRtn s t _
    · split at h
      · exact absurd h (by simp)
      · apply SameStacks.trans _ (removeTracker h)
        exact ((taskSetRtn s t _).trans (store _ _ _)).trans (store _ _ _)
    · obtain rfl := Option.some.inj h
      apply (setTracker s t _).trans
      exact setTask htask rfl
  · exact absurd h (by simp)

theorem taskDetach (h : s.taskDetach t = some s') : SameStacks s s' := by
  unfold State.taskDetach at h
  split at h
  · exact absurd h (by simp)
  · rename_i task htask
    obtain rfl := Option.some.inj h
    exact setTask htask rfl

end SameStacks

theorem endTask_cases {s s' : State} {t retval : Nat} {status : TaskStatus}
    (h : s.endTask t retval status = some s') :
    ∃ task s1 node, s.tasks t = some task ∧ SameStacks s s1 ∧ node ∈ s.blockList ∧
      node.key = addr8mb task.tid ∧ s'.tasks = update s1.tasks t none ∧
      s'.blockList = s.blockList.erase node ∧ s'.nextTid = s.nextTid ∧ s'.created = s.created := by
  unfold State.endTask at h
  split at h
  · rename_i task tracker htask htracker
    split at h
    · exact absurd h (by simp)
    · rename_i s1 hjoin
      have hsame : SameStacks s s1 :=
        (SameStacks.setTracker s t _).trans (SameStacks.join hjoin)
      unfold State.deleteStack at h
      cases hfind : s1.blockList.find? fun node => node.key = addr8mb task.tid with
      | none =>
        simp only [hfind] at h
        exact absurd h (by simp)
      | some node =>
        simp only [hfind] at h
        obtain rfl := Option.some.inj h
        have hmem := mem_of_find?_eq_some hfind
        rw [hsame.blockList] at hmem
        have hkey : node.key = addr8mb task.tid := by simpa using find?_some hfind
        refine ⟨task, s1, node, htask, hsame, hmem, hkey, rfl, ?_, hsame.nextTid, hsame.created⟩
        show s1.blockList.erase node = s.blockList.erase node
        rw [hsame.blockList]
  · exact absurd h (by simp)

/-! ## The invariant -/

namespace TidOk

variable {s s' : State}

theorem init : TidOk State.init := by
  refine ⟨?_, ?_, rfl, ?_, nodup_nil⟩
  · intro t task ht
    exact absurd ht (by simp [State.init])
  · intro t task ht
    exact absurd ht (by simp [State.init])
  · intro node hnode
    exact absurd hnode (by simp [State.init])

theorem congr (h : TidOk s) (hs : SameStacks s s') : TidOk s' := by
  have hback : ∀ t task', s'.tasks t = some task' → ∃ task, s.tasks t = some task ∧
      task.tid = task'.tid := by
    intro t task' ht'
    have htid := hs.tids t
    rw [ht', Option.map_some] at htid
    exact Option.map_eq_some_iff.mp htid.symm
  refine ⟨fun t task' ht' => ?_, fun t task' ht' => ?_, ?_, fun node hnode => ?_, ?_⟩
  · obtain ⟨task, ht, htid⟩ := hback t task' ht'
    rw [← htid]
    exact h.tid t task ht
  · obtain ⟨task, ht, -⟩ := hback t task' ht'
    rw [hs.created]
    exact h.lt t task ht
  · rw [hs.nextTid, hs.created]
    exact h.next
  · rw [hs.blockList] at hnode
    obtain ⟨t, task, ht, hkey⟩ := h.owner node hnode
    have htid := hs.tids t
    rw [ht, Option.map_some] at htid
    obtain ⟨task', ht', htid'⟩ := Option.map_eq_some_iff.mp htid
    exact ⟨t, task', ht', by rw [hkey, htid']⟩
  · rw [hs.blockList]
    exact h.nodup

/-- Two live tasks have the same tid if they are a multiple of 65536 creations apart. -/
theorem tid_eq_iff {t t' : Nat} {task task' : Task} (h : TidOk s) (ht : s.tasks t = some task)
    (ht' : s.tasks t' = some task') (hle : t ≤ t') : task.tid = task'.tid ↔ 2 ^ 16 ∣ t' - t := by
  rw [h.tid t task ht, h.tid t' task' ht']
  omega

theorem find_none (h : TidOk s)
    (hapart : ∀ t, (s.tasks t).isSome → ¬ (2 ^ 16 ∣ s.created - t)) :
    (s.blockList.find? fun node => node.key = addr8mb s.nextTid) = none := by
  apply find?_eq_none.mpr
  intro node hnode hkey
  obtain ⟨t, task, ht, hkey'⟩ := h.owner node hnode
  have htid : task.tid = s.nextTid := by
    apply addr8mb_injective
    rw [← hkey']
    simpa using hkey
  apply hapart t (by rw [ht]; rfl)
  have hlt := h.lt t task ht
  rw [h.tid t task ht, h.next] at htid
  omega

theorem addTracker {stackPtr : Nat} {current : Option Nat} {kernelParent : Bool}
    {blocks : List StackBlockNode} (h : TidOk s)
    (hblocks : ∀ node ∈ blocks, node ∈ s.blockList ∨ node.key = addr8mb s.nextTid)
    (hnodup : (blocks.map StackBlockNode.key).Nodup) :
    TidOk (State.addTracker { s with blockList := blocks } stackPtr current kernelParent) := by
  have hrest := SameRest.insertTracker ((({ s with blockList := blocks } : State).setTracker
    s.created ⟨if kernelParent then none else current, [], s.nextTid, some s.created, -1, 0,
      none⟩).setTask s.created ⟨s.nextTid, stackPtr, .ready, false, 0⟩)
    (if kernelParent then none else current) s.created
  have htasks : (State.addTracker { s with blockList := blocks } stackPtr current
      kernelParent).tasks
        = update s.tasks s.created (some ⟨s.nextTid, stackPtr, .ready, false, 0⟩) :=
    hrest.tasks
  have hlist : (State.addTracker { s with blockList := blocks } stackPtr current
      kernelParent).blockList = blocks := hrest.blockList
  have hcreated : (State.addTracker { s with blockList := blocks } stackPtr current
      kernelParent).created = s.created + 1 := rfl
  refine ⟨fun t task ht => ?_, fun t task ht => ?_, ?_, fun node hnode => ?_, ?_⟩
  · rw [htasks] at ht
    by_cases heq : t = s.created
    · subst heq
      rw [update_self] at ht
      obtain rfl := Option.some.inj ht
      exact h.next
    · rw [update_of_ne heq] at ht
      exact h.tid t task ht
  · rw [htasks] at ht
    rw [hcreated]
    by_cases heq : t = s.created
    · omega
    · rw [update_of_ne heq] at ht
      have hlt := h.lt t task ht
      omega
  · show (s.nextTid + 1) % 2 ^ 16 = (s.created + 1) % 2 ^ 16
    rw [h.next, Nat.mod_add_mod]
  · rw [hlist] at hnode
    rw [htasks]
    rcases hblocks node hnode with hold | hnew
    · obtain ⟨t, task, ht, hkey⟩ := h.owner node hold
      have hlt := h.lt t task ht
      refine ⟨t, task, ?_, hkey⟩
      rw [update_of_ne (by omega), ht]
    · exact ⟨s.created, _, update_self _ _ _, hnew⟩
  · rw [hlist]
    exact hnodup

theorem createTask {current : Option Nat} {withStack kernelParent : Bool} (h : TidOk s)
    (hexec : s.createTask current withStack kernelParent = some s') : TidOk s' := by
  rcases State.createTask_cases hexec with ⟨-, rfl⟩ | ⟨-, hfind, stackPtr, node, hkey, rfl⟩
  · exact h.addTracker (fun node hnode => Or.inl hnode) h.nodup
  · apply h.addTracker
    · intro node' hnode'
      rcases mem_cons.mp hnode' with rfl | hold
      · exact Or.inr hkey
      · exact Or.inl hold
    · rw [map_cons, nodup_cons]
      refine ⟨fun hmem => ?_, h.nodup⟩
      obtain ⟨node', hnode', hkey'⟩ := mem_map.mp hmem
      have hno := find?_eq_none.mp hfind node' hnode'
      rw [hkey', hkey] at hno
      exact hno (by simp)

theorem endTask {t retval : Nat} {status : TaskStatus} (h : TidOk s)
    (hexec : s.endTask t retval status = some s') : TidOk s' := by
  obtain ⟨task, s1, node, ht, hsame, hnode, hkey, htasks, hlist, hnext, hcreated⟩ :=
    endTask_cases hexec
  have h₁ : TidOk s1 := h.congr hsame
  have hold : ∀ t' task', s'.tasks t' = some task' → s1.tasks t' = some task' := by
    intro t' task' ht'
    rw [htasks] at ht'
    by_cases heq : t' = t
    · rw [heq, update_self] at ht'
      exact absurd ht' (by simp)
    · rw [update_of_ne heq] at ht'
      exact ht'
  refine ⟨fun t' task' ht' => h₁.tid t' task' (hold t' task' ht'), fun t' task' ht' => ?_, ?_,
    fun node' hnode' => ?_, ?_⟩
  · rw [hcreated, ← hsame.created]
    exact h₁.lt t' task' (hold t' task' ht')
  · rw [hnext, hcreated]
    exact h.next
  · rw [hlist] at hnode'
    have hmem : node' ∈ s.blockList := mem_of_mem_erase hnode'
    -- The stacks have different keys, so the stack that is left is one of another task.
    have hne : node'.key ≠ node.key := by
      intro heq
      have hinj := inj_on_of_nodup_map h.nodup hmem hnode heq
      subst hinj
      exact (List.Nodup.of_map _ h.nodup).not_mem_erase hnode'
    rw [← hsame.blockList] at hmem
    obtain ⟨t', task', ht', hkey'⟩ := h₁.owner node' hmem
    refine ⟨t', task', ?_, hkey'⟩
    rw [htasks, update_of_ne, ht']
    rintro rfl
    have htid := hsame.tids t'
    rw [ht', ht, Option.map_some, Option.map_some] at htid
    exact hne (by rw [hkey', hkey, Option.some.inj htid])
  · rw [hlist]
    exact h.nodup.sublist (List.Sublist.map _ erase_sublist)

theorem step {op : Op} (h : TidOk s) (hstep : Step s op s') : TidOk s' := by
  obtain ⟨-, hexec⟩ := hstep
  cases op with
  | create current withStack kernelParent => exact h.createTask hexec
  | detach t => exact h.congr (SameStacks.taskDetach hexec)
  | endTask t retval status => exact h.endTask hexec
  | waitTask t tid status retval => exact h.congr (SameStacks.waitTask hexec)

end TidOk

/-! ## Runs -/

section Run

variable {s s' : State}

/-- A new task keeps the tids different if and only if the counter is apart. -/
theorem UniqueTids.createTask {current : Option Nat} {withStack kernelParent : Bool}
    (h : UniqueTids s) (hok : TidOk s)
    (hexec : s.createTask current withStack kernelParent = some s') :
    UniqueTids s' ↔ Op.Apart s (.create current withStack kernelParent) := by
  have hok' := hok.createTask hexec
  have htasks : ∃ task, s'.tasks = update s.tasks s.created (some task) := by
    rcases State.createTask_cases hexec with ⟨-, rfl⟩ | ⟨-, -, stackPtr, node, -, rfl⟩
    · exact ⟨_, (SameRest.insertTracker _ _ _).tasks⟩
    · exact ⟨_, (SameRest.insertTracker _ _ _).tasks⟩
  obtain ⟨new, htasks⟩ := htasks
  have hself : s'.tasks s.created = some new := by rw [htasks, update_self]
  have hother : ∀ t, t ≠ s.created → s'.tasks t = s.tasks t := by
    intro t hne
    rw [htasks, update_of_ne hne]
  have hlt : ∀ t task, s.tasks t = some task → t < s.created := hok.lt
  constructor
  · intro hunique t ht hdvd
    obtain ⟨task, ht⟩ := Option.isSome_iff_exists.mp ht
    have hless := hlt t task ht
    have ht' : s'.tasks t = some task := by rw [hother t (by omega), ht]
    have heq := (hok'.tid_eq_iff ht' hself (by omega)).mpr hdvd
    have hsame := hunique t s.created task new ht' hself heq
    omega
  · intro hapart t t' task task' ht ht' htid
    have hnew : ∀ t task, s'.tasks t = some task → t ≠ s.created → task.tid ≠ new.tid := by
      intro t task ht hne htid
      have hold := (hother t hne).symm.trans ht
      have hless := hlt t task hold
      have hdvd := (hok'.tid_eq_iff ht hself (by omega)).mp htid
      exact hapart t (by rw [hold]; rfl) hdvd
    by_cases heq : t = s.created
    · by_cases heq' : t' = s.created
      · rw [heq, heq']
      · subst heq
        obtain rfl := Option.some.inj (ht.symm.trans hself)
        exact absurd htid.symm (hnew t' task' ht' heq')
    · by_cases heq' : t' = s.created
      · subst heq'
        obtain rfl := Option.some.inj (ht'.symm.trans hself)
        exact absurd htid (hnew t task ht heq)
      · rw [hother t heq] at ht
        rw [hother t' heq'] at ht'
        exact h t t' task task' ht ht' htid

theorem UniqueTids.of_tids (h : UniqueTids s)
    (htids : ∀ t task', s'.tasks t = some task' → ∃ task, s.tasks t = some task ∧
      task.tid = task'.tid) : UniqueTids s' := by
  intro t t' task task' ht ht' htid
  obtain ⟨old, hold, heq⟩ := htids t task ht
  obtain ⟨old', hold', heq'⟩ := htids t' task' ht'
  exact h t t' old old' hold hold' (by rw [heq, heq', htid])

theorem SameStacks.tid_back {t : Nat} {task' : Task} (hs : SameStacks s s')
    (ht' : s'.tasks t = some task') : ∃ task, s.tasks t = some task ∧ task.tid = task'.tid := by
  have htid := hs.tids t
  rw [ht', Option.map_some] at htid
  exact Option.map_eq_some_iff.mp htid.symm

theorem UniqueTids.step {op : Op} (h : UniqueTids s) (hok : TidOk s) (hstep : ApartStep s op s') :
    UniqueTids s' := by
  obtain ⟨⟨-, hexec⟩, hapart⟩ := hstep
  cases op with
  | create current withStack kernelParent => exact (h.createTask hok hexec).mpr hapart
  | detach t => exact h.of_tids fun t' task' => (SameStacks.taskDetach hexec).tid_back
  | endTask t retval status =>
    obtain ⟨task, s1, node, -, hsame, -, -, htasks, -⟩ := endTask_cases hexec
    apply h.of_tids
    intro t' task' ht'
    rw [htasks] at ht'
    by_cases heq : t' = t
    · rw [heq, update_self] at ht'
      exact absurd ht' (by simp)
    · rw [update_of_ne heq] at ht'
      exact hsame.tid_back ht'
  | waitTask t tid status retval =>
    exact h.of_tids fun t' task' => (SameStacks.waitTask hexec).tid_back

/-- In every run in which no task is created while a task lives that was created a
multiple of 65536 creations before, no two live tasks have the same tid.  Then
`createStack` finds no block for the tid of the next task, and a creation that does
not keep to this gives a live tid a second time. -/
theorem tids_of_run {ops : List Op} (hrun : Run ApartStep State.init ops s) :
    UniqueTids s ∧
    (∀ current kernelParent, Op.Apart s (.create current true kernelParent) →
      (s.blockList.find? fun node => node.key = addr8mb s.nextTid) = none) ∧
    (∀ current withStack kernelParent s',
      s.createTask current withStack kernelParent = some s' →
      (UniqueTids s' ↔ Op.Apart s (.create current withStack kernelParent))) := by
  have hinit : UniqueTids State.init := by
    intro t t' task task' ht
    exact absurd ht (by simp [State.init])
  have hinv : TidOk s ∧ UniqueTids s := by
    induction hrun with
    | nil => exact ⟨TidOk.init, hinit⟩
    | snoc _ hstep ih => exact ⟨ih.1.step hstep.1, ih.2.step ih.1 hstep⟩
  refine ⟨hinv.2, fun current kernelParent hapart => ?_, fun current withStack kernelParent s' h => ?_⟩
  · exact hinv.1.find_none hapart
  · exact hinv.2.createTask hinv.1 h

end Run

/-- Two tasks, and the tid of the first one is not due again. -/
theorem tids_of_run_two :
    ∃ s, Run ApartStep State.init [.create none false true, .create (some 0) true false] s ∧
      (s.tasks 0).isSome ∧ (s.tasks 1).isSome ∧ UniqueTids s := by
  have hrun : ∃ s, Run ApartStep State.init
      [.create none false true, .create (some 0) true false] s ∧ (s.tasks 0).isSome ∧
      (s.tasks 1).isSome := by
    refine ⟨_, .cons ⟨⟨by simp [Op.Allowed], rfl⟩, ?_⟩ (.cons ⟨⟨?_, rfl⟩, ?_⟩ .nil), rfl, rfl⟩
    · intro t ht
      exact absurd ht (by simp [State.init])
    · intro t ht
      obtain rfl := Option.some.inj ht
      exact ⟨rfl, _, rfl, rfl⟩
    · intro t ht
      by_cases heq : t = 0
      · subst heq
        decide
      · simp [State.addTracker, State.insertTracker, State.setTask, State.setTracker, heq,
          State.init] at ht
  obtain ⟨s, hrun, h0, h1⟩ := hrun
  exact ⟨s, hrun, h0, h1, (tids_of_run hrun).1⟩

/-! ## The counter comes back

Task 0 lives on, and one task after the other is created and ends. -/

/-- At most `N` tasks are alive. -/
def AtMost (N : Nat) (s : State) : Prop :=
  ∃ live : Finset Nat, live.card ≤ N ∧ ∀ t, (s.tasks t).isSome → t ∈ live

/-- A step after which at most `N` tasks are alive. -/
def BoundedStep (N : Nat) (s : State) (op : Op) (s' : State) : Prop := Step s op s' ∧ AtMost N s'

theorem endTask_last {s s1 : State} {task : Task} {tracker : Tracker} {node : StackBlockNode}
    {n : Nat} (htask : s1.tasks = update s.tasks n (some task))
    (htracker : s1.trackers = update s.trackers n (some tracker))
    (hlist : s1.taskList = n :: s.taskList) (hblocks : s1.blockList = node :: s.blockList)
    (hmemory : s1.memory = s.memory) (hdetached : task.detached = false)
    (hparent : tracker.parent = none) (hchildren : tracker.children = [])
    (hkey : node.key = addr8mb task.tid) (htrackers : s.trackers n = none)
    (htasks : s.tasks n = none) :
    s1.endTask n 0 .exitedClean
      = some { s with nextTid := s1.nextTid, created := s1.created } := by
  have ht : s1.tasks n = some task := by rw [htask, update_self]
  have htr : s1.trackers n = some tracker := by rw [htracker, update_self]
  have hself : (s1.finishTracker n tracker 0 .exitedClean).trackers n
      = some { tracker with status := TaskStatus.exitedClean.value, retval := 0, task := none } :=
    update_self _ _ _
  have hremove : (s1.finishTracker n tracker 0 .exitedClean).removeTracker n
      = some { s1 with trackers := s.trackers, taskList := s.taskList } := by
    unfold State.removeTracker
    rw [hself]
    dsimp only
    rw [hparent]
    have hself' : ((s1.finishTracker n tracker 0 .exitedClean).eraseTracker none n).trackers n
        = some { tracker with status := TaskStatus.exitedClean.value, retval := 0, task := none } :=
      hself
    rcases drain_succ (s1.finishTracker n tracker 0 .exitedClean).created hself' with
      ⟨-, heq⟩ | ⟨child, rest, hno, -⟩
    · rw [heq]
      simp only [State.deleteTracker, State.eraseTracker, State.finishTracker, State.setTracker,
        update_idem, htracker, hlist, erase_cons_head]
      rw [← htrackers, update_eq_self]
    · rw [hchildren] at hno
      exact absurd hno (by simp)
  have hjoin : (s1.finishTracker n tracker 0 .exitedClean).join n task tracker 0 .exitedClean
      = some { s1 with trackers := s.trackers, taskList := s.taskList } := by
    unfold State.join
    rw [hdetached, hparent]
    exact hremove
  have hstack : ({ s1 with trackers := s.trackers, taskList := s.taskList } : State).deleteStack
      task.tid = some { s1 with
        trackers := s.trackers, taskList := s.taskList, blockList := s.blockList } := by
    unfold State.deleteStack
    dsimp only
    rw [hblocks, find?_cons_of_pos (by simpa using hkey)]
    simp
  unfold State.endTask
  rw [ht, htr]
  dsimp only
  rw [hjoin]
  dsimp only
  rw [hstack]
  dsimp only
  rw [htask, update_idem, ← htasks, update_eq_self, hmemory]

theorem visit {s : State} (htrackers : s.trackers s.created = none)
    (htasks : s.tasks s.created = none)
    (hfind : (s.blockList.find? fun node => node.key = addr8mb s.nextTid) = none) :
    ∃ s1 task, Step s (.create none true true) s1 ∧
      s1.tasks = update s.tasks s.created (some task) ∧ task.tid = s.nextTid ∧
      Step s1 (.endTask s.created 0 .exitedClean)
        { s with nextTid := (s.nextTid + 1) % 2 ^ 16, created := s.created + 1 } := by
  have hcreate : ∃ stackPtr node, node.key = addr8mb s.nextTid ∧
      s.createTask none true true = some (State.addTracker
        { s with blockList := node :: s.blockList } stackPtr none true) := by
    unfold State.createTask State.createStack
    rw [hfind]
    exact ⟨_, _, rfl, rfl⟩
  obtain ⟨stackPtr, node, hkey, hcreate⟩ := hcreate
  have htask : (State.addTracker { s with blockList := node :: s.blockList } stackPtr none
      true).tasks = update s.tasks s.created
        (some ⟨s.nextTid, stackPtr, .ready, false, 0⟩) := rfl
  have htracker : (State.addTracker { s with blockList := node :: s.blockList } stackPtr none
      true).trackers = update s.trackers s.created
        (some ⟨none, [], s.nextTid, some s.created, -1, 0, none⟩) := rfl
  have hself : (State.addTracker { s with blockList := node :: s.blockList } stackPtr none
      true).trackers s.created = some ⟨none, [], s.nextTid, some s.created, -1, 0, none⟩ := by
    rw [htracker, update_self]
  refine ⟨_, _, ⟨by simp [Op.Allowed], hcreate⟩, htask, rfl, ⟨?_, _, hself, rfl⟩,
    endTask_last htask htracker rfl rfl rfl rfl rfl rfl hkey htrackers htasks⟩
  rw [htask, update_self]
  rfl

/-- The first task, with or without a stack. -/
structure First (withStack : Bool) (s : State) : Prop where
  tasks : ∃ task, s.tasks = update (fun _ => none) 0 (some task) ∧ task.tid = 0
  trackers : ∀ n, n ≠ 0 → s.trackers n = none
  blocks : if withStack then ∃ node, s.blockList = [node] ∧ node.key = addr8mb 0
    else s.blockList = []

/-- The state after the first task and `k` more that have come and gone. -/
def later (s : State) (k : Nat) : State :=
  { s with nextTid := (k + 1) % 2 ^ 16, created := k + 1 }

section Wrap

variable {withStack : Bool} {s : State}

theorem atMost_two {tasks : Nat → Option Task} {n : Nat} (hs : s.tasks = tasks)
    (htasks : ∀ t, t ≠ 0 → t ≠ n → tasks t = none) : AtMost 2 s := by
  refine ⟨{0, n}, Finset.card_le_two, fun t ht => ?_⟩
  by_contra hno
  rw [Finset.mem_insert, Finset.mem_singleton, not_or] at hno
  rw [hs, htasks t hno.1 hno.2] at ht
  exact absurd ht (by simp)

theorem first_run (withStack : Bool) :
    ∃ s, Run (BoundedStep 2) State.init [.create none withStack true] (later s 0) ∧
      First withStack s := by
  cases withStack with
  | false =>
    have hexec : State.init.createTask none false true
        = some (later (State.init.addTracker 0 none true) 0) := rfl
    refine ⟨State.init.addTracker 0 none true, .cons ⟨⟨by simp [Op.Allowed], hexec⟩, ?_⟩ .nil,
      ⟨_, rfl, rfl⟩, ?_, rfl⟩
    · refine atMost_two (n := 0) rfl fun t ht _ => ?_
      exact update_of_ne ht _ _
    · intro n hn
      exact update_of_ne hn _ _
  | true =>
    have hexec : ∃ stackPtr node, node.key = addr8mb 0 ∧ State.init.createTask none true true
        = some (later (State.addTracker { State.init with blockList := [node] } stackPtr none true)
          0) := ⟨_, _, rfl, rfl⟩
    obtain ⟨stackPtr, node, hkey, hexec⟩ := hexec
    refine ⟨State.addTracker { State.init with blockList := [node] } stackPtr none true,
      .cons ⟨⟨by simp [Op.Allowed], hexec⟩, ?_⟩ .nil, ⟨_, rfl, rfl⟩, ?_, node, rfl, hkey⟩
    · refine atMost_two (n := 0) rfl fun t ht _ => ?_
      exact update_of_ne ht _ _
    · intro n hn
      exact update_of_ne hn _ _

theorem First.find_none (h : First withStack s) {tid : Nat} (htid : withStack = true → tid ≠ 0) :
    (s.blockList.find? fun node => node.key = addr8mb tid) = none := by
  have hblocks := h.blocks
  cases withStack with
  | false =>
    rw [if_neg (by simp)] at hblocks
    rw [hblocks]
    rfl
  | true =>
    rw [if_pos rfl] at hblocks
    obtain ⟨node, hlist, hkey⟩ := hblocks
    rw [hlist]
    apply find?_eq_none.mpr
    intro node' hnode' hkey'
    obtain rfl := mem_singleton.mp hnode'
    have heq := of_decide_eq_true hkey'
    rw [hkey] at heq
    exact htid rfl (addr8mb_injective heq).symm

theorem First.visit (h : First withStack s) (k : Nat)
    (hk : withStack = true → (k + 1) % 2 ^ 16 ≠ 0) :
    ∃ s1, BoundedStep 2 (later s k) (.create none true true) s1 ∧
      BoundedStep 2 s1 (.endTask (k + 1) 0 .exitedClean) (later s (k + 1)) ∧
      ∃ task, s1.tasks = update s.tasks (k + 1) (some task) ∧
        task.tid = (k + 1) % 2 ^ 16 := by
  obtain ⟨first, htasks, -⟩ := h.tasks
  have hnone : ∀ t, t ≠ 0 → s.tasks t = none := by
    intro t ht
    rw [htasks, update_of_ne ht]
  obtain ⟨s1, task, hcreate, htask, htid, hend⟩ := TaskMgr.visit (s := later s k)
    (h.trackers (k + 1) (by omega)) (hnone (k + 1) (by omega)) (h.find_none hk)
  have hmod : ((k + 1) % 2 ^ 16 + 1) % 2 ^ 16 = (k + 1 + 1) % 2 ^ 16 := Nat.mod_add_mod _ _ _
  have hnext : ({ later s k with
      nextTid := ((later s k).nextTid + 1) % 2 ^ 16
      created := (later s k).created + 1 } : State) = later s (k + 1) := by
    unfold later
    dsimp only
    rw [hmod]
  rw [hnext] at hend
  refine ⟨s1, ⟨hcreate, ?_⟩, ⟨hend, ?_⟩, task, htask, htid⟩
  · refine atMost_two (n := k + 1) htask fun t ht hne => ?_
    exact (update_of_ne hne _ _).trans (hnone t ht)
  · exact atMost_two (n := 0) rfl fun t ht _ => hnone t ht

/-- Any number of tasks can come and go while the first task has no stack, and 65535
if it has one. -/
theorem First.run (h : First withStack s)
    (hrun : ∃ ops, Run (BoundedStep 2) State.init ops (later s 0)) (k : Nat)
    (hk : withStack = true → k < 2 ^ 16) :
    ∃ ops, Run (BoundedStep 2) State.init ops (later s k) := by
  induction k with
  | zero => exact hrun
  | succ k ih =>
    obtain ⟨ops, hops⟩ := ih fun hstack => by have := hk hstack; omega
    obtain ⟨s1, hcreate, hend, -⟩ := h.visit k fun hstack => by have := hk hstack; omega
    exact ⟨_, (hops.snoc hcreate).snoc hend⟩

theorem First.twice (h : First false s) {k : Nat} (hk : (k + 1) % 2 ^ 16 = 0) :
    ∃ s1, BoundedStep 2 (later s k) (.create none true true) s1 ∧ ¬ UniqueTids s1 := by
  obtain ⟨s1, hcreate, -, task, htask, htid⟩ := h.visit k (by simp)
  obtain ⟨first, htasks, hzero⟩ := h.tasks
  refine ⟨s1, hcreate, fun hunique => ?_⟩
  have h0 : s1.tasks 0 = some first := by
    rw [htask, update_of_ne (by omega), htasks, update_self]
  have h1 : s1.tasks (k + 1) = some task := by rw [htask, update_self]
  have hsame := hunique 0 (k + 1) first task h0 h1 (by omega)
  omega

theorem First.meets (h : First true s) {k : Nat} (hk : (k + 1) % 2 ^ 16 = 0) :
    ((later s k).blockList.find? fun node =>
      node.key = addr8mb (later s k).nextTid).isSome ∧
      (later s k).createTask none true true = none := by
  have hblocks := h.blocks
  rw [if_pos rfl] at hblocks
  obtain ⟨node, hlist, hkey⟩ := hblocks
  have hnext : (later s k).nextTid = 0 := hk
  have hfind : ((later s k).blockList.find? fun node =>
      node.key = addr8mb (later s k).nextTid).isSome := by
    rw [hnext]
    show (s.blockList.find? fun node => node.key = addr8mb 0).isSome
    rw [hlist, find?_cons_of_pos (by simpa using hkey)]
    rfl
  refine ⟨hfind, ?_⟩
  unfold State.createTask State.createStack
  rw [if_pos rfl, if_pos hfind]

end Wrap

/-- With at most two tasks alive at any time, the 65537th task has the tid of the first
one, which is an idle task without a stack; and if the first task has a stack,
`createStack` finds its block. -/
theorem tid_twice_after_wrap :
    (∃ ops s, Run (BoundedStep 2) State.init ops s ∧ ¬ UniqueTids s) ∧
    (∃ ops s, Run (BoundedStep 2) State.init ops s ∧
      (s.blockList.find? fun node => node.key = addr8mb s.nextTid).isSome ∧
      s.createTask none true true = none) := by
  constructor
  · obtain ⟨s, hrun, hfirst⟩ := first_run false
    obtain ⟨ops, hops⟩ := hfirst.run ⟨_, hrun⟩ 65535 (by simp)
    obtain ⟨s1, hcreate, htwice⟩ := hfirst.twice (k := 65535) (by norm_num)
    exact ⟨_, s1, hops.snoc hcreate, htwice⟩
  · obtain ⟨s, hrun, hfirst⟩ := first_run true
    obtain ⟨ops, hops⟩ := hfirst.run ⟨_, hrun⟩ 65535 (by norm_num)
    exact ⟨ops, _, hops, hfirst.meets (by norm_num)⟩

end Hostboot.TaskMgr
