import Mathlib
import Hostboot.Vmm.WriteBack

/-!
# Tasks deferred for outstanding writes

`mm_remove_pages` defers its task once and counts in `iv_msgGrpList` how many
write messages the task waits for.  Each successful response counts one down,
and the last one resumes the task.  `DeferredOk` says that the count is the
number of pending objects of the task, that a task with something pending is
deferred, and that the deferrals of a task balance with its completions.

`BlockWriteMsgHdlr::handleResponse` returns before it looks at its lists when
the provider failed a write.  `MessageHandler::recvMessage` then ends the task,
whose other pending objects and whose node in `iv_msgGrpList` stay behind.
The results say that a response keeps the balance exactly when it is not such
a response.
-/

namespace Hostboot.Vmm

open Hostboot.Lib List

namespace Kernel

/-- How many pending objects of a handler a task has. -/
def waits (k : Kernel) (type : MsgType) (t : Nat) : Nat :=
  (k.ivPending type).countP fun mhp => mhp.task = some t

/-- The nodes of a task in the list of the write handler. -/
def group (k : Kernel) (t : Nat) : List TaskMsgNode :=
  k.ivMsgGrpList.filter fun node => node.key = t

/-- How often a task was deferred by the write handler. -/
def deferrals (k : Kernel) (t : Nat) : Nat := k.tasks.events.count (.deferred .write t)

/-- How often a task was resumed or ended by the write handler. -/
def completions (k : Kernel) (t : Nat) : Nat :=
  k.tasks.events.count (.resumed .write t) + k.tasks.events.count (.ended .write t)

end Kernel

/-- The count of a task is the number of writes it waits for, it is deferred
while it waits, it waits for one read or for writes, and its deferrals and
completions balance. -/
structure TaskOk (k : Kernel) (t : Nat) : Prop where
  group : k.group t = if k.waits .write t = 0 then [] else [⟨t, k.waits .write t⟩]
  blocked : ∀ type, k.waits type t ≠ 0 → k.tasks.state t = .blockUserspace
  single : k.waits .read t ≤ 1 ∧ (k.waits .read t ≠ 0 → k.waits .write t = 0)
  balance : k.deferrals t = k.completions t + if k.waits .write t = 0 then 0 else 1

/-- All tasks are in order. -/
def DeferredOk (k : Kernel) : Prop := ∀ t, TaskOk k t

/-! ## The list of counts -/

section Lists

variable {l : List TaskMsgNode} {t t' n : Nat}

theorem filter_incMsgCount (l : List TaskMsgNode) (t t' : Nat) :
    (Kernel.incMsgCount l t).filter (fun node => node.key = t')
      = if t' = t then
          if l.filter (fun node => node.key = t) = [] then [⟨t, 1⟩]
          else (l.filter fun node => node.key = t).map fun node =>
            { node with msgCount := node.msgCount + 1 }
        else l.filter fun node => node.key = t' := by
  rw [Kernel.incMsgCount]
  by_cases hnil : l.filter (fun node => node.key = t) = []
  · have hany : ¬ (l.any fun node => node.key = t) = true := by
      rw [filter_eq_nil_iff] at hnil
      rw [any_eq_true]
      rintro ⟨node, hnode, hkey⟩
      exact hnil node hnode hkey
    rw [if_neg hany, if_pos hnil, filter_cons]
    by_cases ht : t' = t
    · subst ht
      simp [hnil]
    · simp [ht, Ne.symm ht]
  · have hany : (l.any fun node => node.key = t) = true := by
      obtain ⟨node, hnode⟩ := exists_mem_of_ne_nil _ hnil
      obtain ⟨hmem, hkey⟩ := mem_filter.mp hnode
      exact any_eq_true.mpr ⟨node, hmem, hkey⟩
    rw [if_pos hany, if_neg hnil]
    exact Lists.filter_map_update TaskMsgNode.key
      (fun node => { node with msgCount := node.msgCount + 1 }) (fun _ => rfl) l t t'

theorem countMessage_eq (result : HandleResult)
    (hl : l.filter (fun node => node.key = t) = [⟨t, n⟩]) :
    (Kernel.countMessage result l (some t)).1 = (if n = 1 then .success else .continueDefer) ∧
      ∀ t', (Kernel.countMessage result l (some t)).2.filter (fun node => node.key = t')
        = if t' = t then if n = 1 then [] else [⟨t, n - 1⟩]
          else l.filter fun node => node.key = t' := by
  have hfind : l.find? (fun node => node.key = t) = some ⟨t, n⟩ := by
    rw [← head?_filter, hl]
    rfl
  rw [Kernel.countMessage, hfind]
  by_cases hone : n = 1
  · subst hone
    refine ⟨rfl, fun t' => ?_⟩
    by_cases ht : t' = t
    · subst ht
      rw [if_pos rfl, if_pos rfl]
      exact Lists.filter_erase_head hl
    · rw [if_neg ht]
      exact Lists.filter_erase_of_not (by simpa using Ne.symm ht) l
  · simp only [if_neg hone, true_and]
    intro t'
    rw [Lists.filter_map_update TaskMsgNode.key
      (fun node => { node with msgCount := node.msgCount - 1 }) (fun _ => rfl) l t t', hl]
    rfl

end Lists

/-! ## Deferring a task -/

namespace Kernel

theorem waits_sendMessage (k : Kernel) (type type' : MsgType) (key data t : Nat)
    (task : Option Nat) :
    (k.sendMessage type key data task).waits type' t
      = k.waits type' t + if type' = type ∧ task = some t then 1 else 0 := by
  by_cases htype : type' = type
  · subst htype
    simp [waits, sendMessage, countP_cons]
  · simp [waits, sendMessage, htype]

theorem waits_writeOut (k : Kernel) (i : Nat) (task : Option Nat) (type : MsgType) (t : Nat) :
    (k.writeOut i task).waits type t
      = k.waits type t + if type = .write ∧ task = some t then 1 else 0 :=
  waits_sendMessage _ .write type i _ t task

end Kernel

namespace TaskOk

variable {k k' : Kernel} {i t t0 : Nat} {task : Option Nat}

theorem congr (h : TaskOk k t) (h1 : ∀ type, k'.waits type t = k.waits type t)
    (h2 : k'.group t = k.group t) (h3 : k'.tasks.state t = k.tasks.state t)
    (h4 : k'.deferrals t = k.deferrals t) (h5 : k'.completions t = k.completions t) :
    TaskOk k' t := by
  refine ⟨?_, ?_, ?_, ?_⟩
  · rw [h2, h1]
    exact h.group
  · intro type ht
    rw [h1] at ht
    rw [h3]
    exact h.blocked type ht
  · rw [h1, h1]
    exact h.single
  · rw [h1, h4, h5]
    exact h.balance

theorem waits_of_running (h : TaskOk k t) (ht : k.tasks.state t = .running) (type : MsgType) :
    k.waits type t = 0 := by
  by_contra hne
  rw [h.blocked type hne] at ht
  exact absurd ht (by simp)

theorem sendMessage_other {type : MsgType} {key : Nat} (h : TaskOk k t) (hne : task ≠ some t)
    (hk' : k'.ivPending = (k.sendMessage type key 0 task).ivPending)
    (htasks : k'.tasks = (k.sendMessage type key 0 task).tasks)
    (hgroup : k'.group t = k.group t) : TaskOk k' t := by
  have hwaits : ∀ type', k'.waits type' t = k.waits type' t := by
    intro type'
    have hsend := k.waits_sendMessage type type' key 0 t task
    rw [if_neg fun hno => hne hno.2, Nat.add_zero] at hsend
    rw [← hsend, Kernel.waits, hk']
    rfl
  cases task with
  | none =>
    have htasks' : k'.tasks = k.tasks := htasks
    refine h.congr hwaits hgroup ?_ ?_ ?_
    · rw [htasks']
    · rw [Kernel.deferrals, htasks']
      rfl
    · rw [Kernel.completions, htasks']
      rfl
  | some t0 =>
    have ht : t ≠ t0 := fun heq => hne (heq ▸ rfl)
    have htasks' : k'.tasks = k.tasks.defer type t0 := htasks
    refine h.congr hwaits hgroup ?_ ?_ ?_
    · rw [htasks']
      exact Function.update_of_ne ht _ _
    · rw [Kernel.deferrals, Kernel.deferrals, htasks', Tasks.defer]
      split_ifs
      · exact count_cons_of_ne (by simpa using fun _ => Ne.symm ht)
      · rfl
    · rw [Kernel.completions, Kernel.completions, htasks', Tasks.defer]
      split_ifs
      · rw [count_cons_of_ne (by simp), count_cons_of_ne (by simp)]
      · rfl

end TaskOk

/-! ## Deferring a task -/

namespace DeferredOk

variable {k k' : Kernel} {i t : Nat} {task : Option Nat}

theorem congr (h : DeferredOk k) (h1 : k'.ivPending = k.ivPending)
    (h2 : k'.ivMsgGrpList = k.ivMsgGrpList) (h3 : k'.tasks = k.tasks) : DeferredOk k' := by
  intro t
  refine (h t).congr (fun type => ?_) ?_ ?_ ?_ ?_
  · rw [Kernel.waits, h1]
    rfl
  · rw [Kernel.group, h2]
    rfl
  · rw [h3]
  · rw [Kernel.deferrals, h3]
    rfl
  · rw [Kernel.completions, h3]
    rfl

/-- A running task, or one that already waits for a write, waits for one more. -/
theorem writeOut (h : DeferredOk k)
    (htask : ∀ t, task = some t → k.tasks.state t = .running ∨ k.waits .write t ≠ 0) :
    DeferredOk (k.writeOut i task) := by
  intro t
  have hgroup : (k.writeOut i task).group t = if task = some t then
      if k.group t = [] then [⟨t, 1⟩]
      else (k.group t).map fun node => { node with msgCount := node.msgCount + 1 }
      else k.group t := by
    cases task with
    | none => rfl
    | some t0 =>
      have hfilter := filter_incMsgCount k.ivMsgGrpList t0 t
      by_cases ht : t = t0
      · subst ht
        rw [if_pos rfl] at hfilter ⊢
        exact hfilter
      · rw [if_neg ht] at hfilter
        rw [if_neg fun hno => ht (Option.some.inj hno).symm]
        exact hfilter
  by_cases hself : task = some t
  · subst hself
    rw [if_pos rfl] at hgroup
    have hwrite : (k.writeOut i (some t)).waits .write t = k.waits .write t + 1 := by
      rw [k.waits_writeOut, if_pos ⟨rfl, rfl⟩]
    have hread : (k.writeOut i (some t)).waits .read t = k.waits .read t := by
      rw [k.waits_writeOut, if_neg fun hno => absurd hno.1 (by simp), Nat.add_zero]
    have hnoread : k.waits .read t = 0 := by
      rcases htask t rfl with hrunning | hne
      · exact (h t).waits_of_running hrunning .read
      · by_contra hno
        exact hne ((h t).single.2 hno)
    have htasks : (k.writeOut i (some t)).tasks = k.tasks.defer .write t := rfl
    refine ⟨?_, ?_, ?_, ?_⟩
    · rw [hgroup, hwrite, if_neg (Nat.succ_ne_zero _), (h t).group]
      by_cases hzero : k.waits .write t = 0
      · simp [hzero]
      · simp [hzero]
    · intro _ _
      rw [htasks]
      exact Function.update_self _ _ _
    · rw [hread, hnoread]
      exact ⟨Nat.zero_le 1, fun hno => absurd rfl hno⟩
    · have hbalance := (h t).balance
      rw [hwrite, if_neg (Nat.succ_ne_zero _)]
      rw [Kernel.deferrals, Kernel.completions] at hbalance ⊢
      rw [htasks, Tasks.defer]
      -- The first write of a call defers the task, the others find it deferred.
      by_cases hrunning : k.tasks.state t = .running
      · rw [if_pos ((h t).waits_of_running hrunning .write)] at hbalance
        rw [if_pos hrunning, count_cons_self, count_cons_of_ne (by simp),
          count_cons_of_ne (by simp)]
        omega
      · rcases htask t rfl with hno | hne
        · exact absurd hno hrunning
        · rw [if_neg hne] at hbalance
          rw [if_neg hrunning]
          exact hbalance
  · rw [if_neg hself] at hgroup
    exact (h t).sendMessage_other hself rfl rfl hgroup

theorem requestPage (h : DeferredOk k) (ht : k.tasks.state t = .running) :
    DeferredOk (k.requestPage i t) := by
  intro t'
  by_cases hself : t' = t
  · subst hself
    have hwaits : ∀ type, (k.requestPage i t').waits type t'
        = k.waits type t' + if type = .read ∧ some t' = some t' then 1 else 0 :=
      fun type => Kernel.waits_sendMessage _ .read type i _ t' (some t')
    have hwrite : (k.requestPage i t').waits .write t' = 0 := by
      rw [hwaits, if_neg fun hno => absurd hno.1 (by simp), Nat.add_zero]
      exact (h t').waits_of_running ht .write
    have hread : (k.requestPage i t').waits .read t' = 1 := by
      rw [hwaits, if_pos ⟨rfl, rfl⟩, (h t').waits_of_running ht .read]
    have htasks : (k.requestPage i t').tasks = k.tasks.defer .read t' := rfl
    refine ⟨?_, ?_, ?_, ?_⟩
    · have hgroup := (h t').group
      rw [if_pos ((h t').waits_of_running ht .write)] at hgroup
      rw [hwrite, if_pos rfl]
      exact hgroup
    · intro _ _
      rw [htasks]
      exact Function.update_self _ _ _
    · rw [hread, hwrite]
      exact ⟨Nat.le_refl 1, fun _ => rfl⟩
    · have hbalance := (h t').balance
      rw [if_pos ((h t').waits_of_running ht .write)] at hbalance
      rw [hwrite, if_pos rfl]
      rw [Kernel.deferrals, Kernel.completions] at hbalance ⊢
      rw [htasks, Tasks.defer, if_pos ht, count_cons_of_ne (by simp),
        count_cons_of_ne (by simp), count_cons_of_ne (by simp)]
      exact hbalance
  · exact (h t').sendMessage_other (fun hno => hself (Option.some.inj hno).symm) rfl rfl rfl

end DeferredOk

/-! ## Responses -/

theorem Received.tasks_group {type : MsgType} {key rc : Nat} {mhp : Pending} {k k' : Kernel}
    (h : Received key rc mhp k type k') :
    ∃ result, k'.tasks = Kernel.settleTask k.tasks type rc result mhp.task ∧
      (if type = .write ∧ rc = 0 then
        k'.ivMsgGrpList
          = (Kernel.countMessage (k.completeRemoval key).1 k.ivMsgGrpList mhp.task).2 ∧
        result = (Kernel.countMessage (k.completeRemoval key).1 k.ivMsgGrpList mhp.task).1
      else k'.ivMsgGrpList = k.ivMsgGrpList ∧
        result = if rc = 0 then .success else .unhandledRc) := by
  cases h with
  | error _ hrc => exact ⟨.unhandledRc, rfl, by simp [hrc, Kernel.settle]⟩
  | attached hrc => exact ⟨.success, rfl, by simp [hrc, Kernel.settle, Kernel.attached, Kernel.setPte]⟩
  | written hrc =>
    have hsame : (k.completeRemoval key).2.tasks = k.tasks ∧
        (k.completeRemoval key).2.ivMsgGrpList = k.ivMsgGrpList := by
      rw [Kernel.completeRemoval]
      split
      · exact ⟨rfl, rfl⟩
      · exact ⟨rfl, rfl⟩
    refine ⟨(k.counted key mhp.task).1, ?_, ?_⟩
    · change Kernel.settleTask (k.completeRemoval key).2.tasks .write rc _ mhp.task = _
      rw [hsame.1]
    · rw [if_pos ⟨rfl, hrc⟩, ← hsame.2]
      exact ⟨rfl, rfl⟩

theorem settleTask_other (tasks : Tasks) (type : MsgType) (rc : Nat) (result : HandleResult)
    {task : Option Nat} {t : Nat} (hne : task ≠ some t) :
    (Kernel.settleTask tasks type rc result task).state t = tasks.state t ∧
      (Kernel.settleTask tasks type rc result task).events.count (.deferred .write t)
        = tasks.events.count (.deferred .write t) ∧
      (Kernel.settleTask tasks type rc result task).events.count (.resumed .write t)
        = tasks.events.count (.resumed .write t) ∧
      (Kernel.settleTask tasks type rc result task).events.count (.ended .write t)
        = tasks.events.count (.ended .write t) := by
  cases task with
  | none => exact ⟨rfl, rfl, rfl, rfl⟩
  | some t0 =>
    have ht : t ≠ t0 := fun heq => hne (heq ▸ rfl)
    cases result with
    | success => simp [Kernel.settleTask, Tasks.resume, ht, Ne.symm ht]
    | continueDefer => exact ⟨rfl, rfl, rfl, rfl⟩
    | unhandledRc =>
      rw [Kernel.settleTask]
      split_ifs
      · simp [Tasks.resume, ht, Ne.symm ht]
      · simp [Tasks.endTask, ht, Ne.symm ht]

namespace TaskOk

variable {type : MsgType} {key rc t : Nat} {mhp : Pending} {k k' : Kernel}

theorem waits_received (hmem : mhp ∈ k.ivPending type) (hr : Received key rc mhp k type k')
    (type' : MsgType) (t : Nat) :
    k'.waits type' t + (if type' = type ∧ mhp.task = some t then 1 else 0) = k.waits type' t := by
  rw [Kernel.waits, hr.ivPending]
  by_cases htype : type' = type
  · subst htype
    have hcount := Lists.countP_erase_add (p := fun mhp => decide (mhp.task = some t)) hmem
    simpa [Kernel.waits] using hcount
  · simp [htype, Kernel.waits]

theorem waits_of_mem (hmem : mhp ∈ k.ivPending type) (htask : mhp.task = some t) :
    k.waits type t ≠ 0 := by
  apply Nat.ne_of_gt
  rw [Kernel.waits, countP_pos_iff]
  exact ⟨mhp, hmem, by simpa using htask⟩

theorem group_of_mem (h : TaskOk k t) (hmem : mhp ∈ k.ivPending .write)
    (htask : mhp.task = some t) : k.group t = [⟨t, k.waits .write t⟩] := by
  rw [h.group, if_neg (waits_of_mem hmem htask)]

theorem received_other (h : DeferredOk k) (hmem : mhp ∈ k.ivPending type)
    (hr : Received key rc mhp k type k') (hne : mhp.task ≠ some t) : TaskOk k' t := by
  obtain ⟨result, htasks, hgroup⟩ := hr.tasks_group
  obtain ⟨hstate, hdeferred, hresumed, hended⟩ :=
    settleTask_other k.tasks type rc result hne
  refine (h t).congr ?_ ?_ ?_ ?_ ?_
  · intro type'
    have hwaits := waits_received hmem hr type' t
    rw [if_neg fun hno => hne hno.2] at hwaits
    exact hwaits
  · rw [Kernel.group, Kernel.group]
    by_cases hwrite : type = .write ∧ rc = 0
    · rw [if_pos hwrite] at hgroup
      cases htask : mhp.task with
      | none =>
        rw [htask] at hgroup
        rw [hgroup.1]
        rfl
      | some t0 =>
        rw [hwrite.1] at hmem
        have hcount := (countMessage_eq (k.completeRemoval key).1
          ((h t0).group_of_mem hmem htask)).2 t
        rw [htask] at hgroup hne
        rw [if_neg fun heq => hne (congrArg some heq.symm)] at hcount
        rw [hgroup.1]
        exact hcount
    · rw [if_neg hwrite] at hgroup
      rw [hgroup.1]
  · rw [htasks, hstate]
  · rw [Kernel.deferrals, htasks, hdeferred]
    rfl
  · rw [Kernel.completions, htasks, hresumed, hended]
    rfl

theorem received_read (h : TaskOk k t) (hmem : mhp ∈ k.ivPending .read)
    (hr : Received key rc mhp k .read k') (htask : mhp.task = some t) : TaskOk k' t := by
  obtain ⟨result, htasks, hgroup⟩ := hr.tasks_group
  rw [if_neg fun hno => absurd hno.1 (by simp)] at hgroup
  have hnowrite := h.single.2 (waits_of_mem hmem htask)
  have hread := waits_received hmem hr .read t
  have hwrite := waits_received hmem hr .write t
  rw [if_pos ⟨rfl, htask⟩] at hread
  rw [if_neg fun hno => absurd hno.1 (by simp), Nat.add_zero, hnowrite] at hwrite
  have hsingle := h.single.1
  have hevents : k'.deferrals t = k.deferrals t ∧ k'.completions t = k.completions t := by
    rw [Kernel.deferrals, Kernel.completions, htasks, htask, hgroup.2]
    split_ifs with hrc
    · simp [Kernel.settleTask, Tasks.resume, Kernel.deferrals, Kernel.completions]
    · simp [Kernel.settleTask, hrc, Tasks.endTask, Kernel.deferrals, Kernel.completions]
  refine ⟨?_, ?_, ?_, ?_⟩
  · have hold := h.group
    rw [if_pos hnowrite] at hold
    rw [if_pos hwrite, Kernel.group, hgroup.1]
    exact hold
  · intro type htype
    cases type with
    | read => omega
    | write => exact absurd hwrite htype
  · rw [hwrite]
    exact ⟨by omega, fun _ => rfl⟩
  · have hbalance := h.balance
    rw [if_pos hnowrite] at hbalance
    rw [if_pos hwrite, hevents.1, hevents.2]
    exact hbalance

theorem received_write (h : TaskOk k t) (hmem : mhp ∈ k.ivPending .write) (hrc : rc = 0)
    (hr : Received key rc mhp k .write k') (htask : mhp.task = some t) : TaskOk k' t := by
  obtain ⟨result, htasks, hgroup⟩ := hr.tasks_group
  rw [if_pos ⟨rfl, hrc⟩, htask] at hgroup
  have hwaiting := waits_of_mem hmem htask
  have hnoread : k.waits .read t = 0 := by
    by_contra hno
    exact hwaiting (h.single.2 hno)
  have hread := waits_received hmem hr .read t
  have hwrite := waits_received hmem hr .write t
  rw [if_neg fun hno => absurd hno.1 (by simp), Nat.add_zero, hnoread] at hread
  rw [if_pos ⟨rfl, htask⟩] at hwrite
  obtain ⟨hresult, hfilter⟩ := countMessage_eq (k.completeRemoval key).1 (h.group_of_mem hmem htask)
  rw [← hgroup.2] at hresult
  have hgroup' : k'.group t
      = if k.waits .write t = 1 then [] else [⟨t, k.waits .write t - 1⟩] := by
    have hself := hfilter t
    rw [if_pos rfl, ← hgroup.1] at hself
    exact hself
  have hbalance := h.balance
  rw [if_neg hwaiting] at hbalance
  by_cases hone : k.waits .write t = 1
  · -- The last write of the task: it is resumed.
    rw [if_pos hone] at hresult hgroup'
    have hzero : k'.waits .write t = 0 := by omega
    have htasks' : k'.tasks = k.tasks.resume .write t := by
      rw [htasks, htask, hresult]
      rfl
    refine ⟨?_, ?_, ?_, ?_⟩
    · rw [hgroup', if_pos hzero]
    · intro type htype
      cases type with
      | read => exact absurd hread htype
      | write => exact absurd hzero htype
    · rw [hread, hzero]
      exact ⟨Nat.zero_le 1, fun _ => rfl⟩
    · rw [if_pos hzero]
      rw [Kernel.deferrals, Kernel.completions] at hbalance ⊢
      rw [htasks', Tasks.resume, count_cons_of_ne (by simp), count_cons_self,
        count_cons_of_ne (by simp)]
      omega
  · -- More writes are outstanding: the task stays deferred.
    rw [if_neg hone] at hresult hgroup'
    have hne : k'.waits .write t ≠ 0 := by omega
    have htasks' : k'.tasks = k.tasks := by
      rw [htasks, htask, hresult]
      rfl
    refine ⟨?_, ?_, ?_, ?_⟩
    · rw [hgroup', if_neg hne, ← hwrite]
      rfl
    · intro type htype
      rw [htasks']
      exact h.blocked .write hwaiting
    · rw [hread]
      exact ⟨Nat.zero_le 1, fun hno => absurd rfl hno⟩
    · rw [if_neg hne, Kernel.deferrals, Kernel.completions, htasks']
      exact hbalance

end TaskOk

/-! ## Steps -/

/-- The step is not a failed response to a write that a task waits for. -/
def Op.Fine (k : Kernel) (op : Op) : Prop :=
  ∀ position rc content m, op = .respond position rc content → k.messages[position]? = some m →
    m.type = .write → rc ≠ 0 → ∀ mhp ∈ k.waiting .write m.key, mhp.task = none

theorem Op.fine_of_success {op : Op} (k : Kernel)
    (h : ∀ position rc content, op = .respond position rc content → rc = 0) : op.Fine k :=
  fun position rc content _ hop _ _ hrc => absurd (h position rc content hop) hrc

namespace DeferredOk

variable {k k' : Kernel} {type : MsgType} {key rc : Nat} {task : Option Nat} {op : Op}
  {U : Multiset Nat}

theorem received {mhp : Pending} (h : DeferredOk k) (hmem : mhp ∈ k.ivPending type)
    (hr : Received key rc mhp k type k') (hfine : type = .write → rc ≠ 0 → mhp.task = none) :
    DeferredOk k' := by
  intro t
  by_cases hself : mhp.task = some t
  · cases type with
    | read => exact (h t).received_read hmem hr hself
    | write =>
      have hrc : rc = 0 := by
        by_contra hrc
        exact absurd (hself.symm.trans (hfine rfl hrc)) (by simp)
      exact (h t).received_write hmem hrc hr hself
  · exact TaskOk.received_other h hmem hr hself

/-- A response keeps every task in order if it does not fail a write that a
task waits for. -/
theorem recvMessage (h : DeferredOk k)
    (hfine : type = .write → rc ≠ 0 → ∀ mhp ∈ k.waiting .write key, mhp.task = none)
    (hrecv : k.recvMessage type key rc = some k') : DeferredOk k' := by
  have hinv : DeferredOk k' ∧ k'.waiting type key = [] ∧
      ∀ mhp ∈ ([] : List Pending), type = .write → rc ≠ 0 → mhp.task = none := by
    refine Kernel.recvLoop_invariant
      (P := fun rest k1 => DeferredOk k1 ∧ k1.waiting type key = rest ∧
        ∀ mhp ∈ rest, type = .write → rc ≠ 0 → mhp.task = none) ?_ ⟨h, rfl, ?_⟩ hrecv
    · rintro mhp rest k1 k2 ⟨hok, hrest, htasks⟩ hround
      have hr := Kernel.recvPending_cases hround
      have hmem : mhp ∈ k1.ivPending type := by
        have : mhp ∈ k1.waiting type key := hrest ▸ mem_cons_self
        exact (mem_filter.mp this).1
      exact ⟨hok.received hmem hr (htasks mhp mem_cons_self), hr.waiting_self hrest,
        fun mhp' hmhp' => htasks mhp' (mem_cons_of_mem _ hmhp')⟩
    · intro mhp hmhp htype hrc
      subst htype
      exact hfine rfl hrc mhp hmhp
  exact hinv.1

theorem removals (h : DeferredOk k)
    (htask : ∀ t, task = some t → k.tasks.state t = .running ∨ k.waits .write t ≠ 0)
    (hr : Removals task k k') : DeferredOk k' := by
  have hinv : DeferredOk k' ∧
      ∀ t, task = some t → k'.tasks.state t = .running ∨ k'.waits .write t ≠ 0 := by
    induction hr with
    | refl => exact ⟨h, htask⟩
    | tail _ hlast ih =>
      obtain ⟨hok, htask⟩ := ih
      cases hlast with
      | delEntry i => exact ⟨hok.congr rfl rfl rfl, htask⟩
      | writeOut i =>
        refine ⟨hok.writeOut htask, fun t ht => Or.inr ?_⟩
        rw [Kernel.waits_writeOut, if_pos ⟨rfl, ht⟩]
        exact Nat.succ_ne_zero _
      | dropPage i => exact ⟨hok.congr rfl rfl rfl, htask⟩
  exact hinv.1

theorem effect (h : DeferredOk k) (hfine : op.Fine k) (heffect : Effect k op k') :
    DeferredOk k' := by
  cases heffect with
  | unhandled => exact h
  | fault task i store alloc k' _ hrunning hr =>
    have htouch : DeferredOk (k.touch i store) := by
      cases store <;> exact h.congr rfl rfl rfl
    have hrunning' : (k.touch i store).tasks.state task = .running := by
      cases store <;> exact hrunning
    cases hr with
    | nothing => exact htouch
    | mapped => exact htouch.congr rfl rfl rfl
    | requested => exact htouch.requestPage hrunning'
    | allocated p =>
      have htake : DeferredOk ((k.touch i store).takePage i p) := htouch.congr rfl rfl rfl
      exact htake.requestPage hrunning'
    | zeroed p k1 _ _ _ _ hk1 =>
      subst hk1
      exact htouch.congr rfl rfl rfl
  | store => exact h.congr rfl rfl rfl
  | removePages op vaddr size task k' hrunning hr =>
    exact h.removals (fun t ht => Or.inl (hrunning t ht)) hr
  | castOutPages critical k' hr => exact h.removals (fun t ht => absurd ht (by simp)) hr
  | dropEntry i referenced =>
    obtain ⟨ptes, heq, -⟩ := (k.delEntry i).updateRefCount_eq i referenced
    rw [heq]
    exact h.congr rfl rfl rfl
  | respond position rc content m k' hm hrecv =>
    have hanswer : DeferredOk (k.answer position m rc content) := h.congr rfl rfl rfl
    exact hanswer.recvMessage (fun htype hrc => hfine position rc content m rfl hm htype hrc) hrecv
  | otherAllocate => exact h.congr rfl rfl rfl
  | otherFree => exact h.congr rfl rfl rfl
  | otherWrite => exact h.congr rfl rfl rfl

end DeferredOk

/-! ## Every run -/

/-- Each deferral of a task by the write handler has one completion, apart from
the one the task waits in, and a task that does not wait is not in the list of
the write handler. -/
def Kernel.Settled (k : Kernel) : Prop :=
  ∀ t, (k.deferrals t = k.completions t + if k.waits .write t = 0 then 0 else 1) ∧
    (k.waits .write t = 0 → ∀ node ∈ k.ivMsgGrpList, node.key ≠ t)

namespace DeferredOk

variable {k k' : Kernel} {key rc t : Nat}

theorem settled (h : DeferredOk k) : k.Settled := by
  intro t
  refine ⟨(h t).balance, fun hzero node hnode hkey => ?_⟩
  have hgroup := (h t).group
  rw [if_pos hzero, Kernel.group, filter_eq_nil_iff] at hgroup
  exact hgroup node hnode (by simpa using hkey)

/-- A failed write ends a task once for each pending object of the key. -/
theorem completions_recvMessage (hrc : rc ≠ 0) (hrecv : k.recvMessage .write key rc = some k')
    (t : Nat) :
    k'.deferrals t = k.deferrals t ∧ k'.completions t
      = k.completions t + (k.waiting .write key).countP fun mhp => mhp.task = some t := by
  have hinv : k'.deferrals t = k.deferrals t ∧
      k'.completions t + ([] : List Pending).countP (fun mhp => mhp.task = some t)
        = k.completions t + (k.waiting .write key).countP fun mhp => mhp.task = some t := by
    refine Kernel.recvLoop_invariant
      (P := fun rest k1 => k1.deferrals t = k.deferrals t ∧
        k1.completions t + rest.countP (fun mhp => mhp.task = some t)
          = k.completions t + (k.waiting .write key).countP fun mhp => mhp.task = some t)
      ?_ ⟨rfl, rfl⟩ hrecv
    rintro mhp rest k1 k2 ⟨hdeferrals, hcompletions⟩ hround
    obtain ⟨result, htasks, hgroup⟩ := (Kernel.recvPending_cases hround).tasks_group
    rw [if_neg fun hno => hrc hno.2, if_neg hrc] at hgroup
    rw [countP_cons] at hcompletions
    by_cases hself : mhp.task = some t
    · have htasks' : k2.tasks = k1.tasks.endTask .write t := by
        rw [htasks, hself, hgroup.2]
        exact if_neg hrc
      rw [if_pos (by simpa using hself)] at hcompletions
      rw [Kernel.deferrals, Kernel.completions] at *
      rw [htasks', Tasks.endTask, count_cons_of_ne (by simp), count_cons_of_ne (by simp),
        count_cons_self]
      exact ⟨hdeferrals, by omega⟩
    · obtain ⟨-, h1, h2, h3⟩ := settleTask_other k1.tasks .write rc result hself
      rw [if_neg (by simpa using hself), Nat.add_zero] at hcompletions
      rw [Kernel.deferrals, Kernel.completions, htasks, h1, h2, h3]
      exact ⟨hdeferrals, hcompletions⟩
  exact hinv

/-- After a failed response to a write that a task waits for, the task is not
settled: its node is left behind, or it was ended while it waits. -/
theorem not_settled (h : DeferredOk k) (hrc : rc ≠ 0)
    (hrecv : k.recvMessage .write key rc = some k') {mhp : Pending}
    (hmem : mhp ∈ k.waiting .write key) (htask : mhp.task = some t) : ¬ k'.Settled := by
  intro hsettled
  obtain ⟨hbalance, hlist⟩ := hsettled t
  have hpending : mhp ∈ k.ivPending .write := (mem_filter.mp hmem).1
  by_cases hzero : k'.waits .write t = 0
  · have hgroup := (h t).group_of_mem hpending htask
    have hnode : ⟨t, k.waits .write t⟩ ∈ k.ivMsgGrpList :=
      (mem_filter.mp (hgroup ▸ mem_cons_self : _ ∈ k.group t)).1
    rw [← (Kernel.recvMessage_quiet (fun hno => hrc hno.2) hrecv).2.2] at hnode
    exact hlist hzero _ hnode rfl
  · obtain ⟨hdeferrals, hcompletions⟩ := completions_recvMessage hrc hrecv t
    have hpos : 0 < (k.waiting .write key).countP fun mhp => mhp.task = some t :=
      countP_pos_iff.mpr ⟨mhp, hmem, by simpa using htask⟩
    have hold := (h t).balance
    rw [if_neg (TaskOk.waits_of_mem hpending htask)] at hold
    rw [if_neg hzero] at hbalance
    omega

end DeferredOk

/-- A step that does not fail a write a task waits for. -/
def FineStep (k : Kernel) (op : Op) (k' : Kernel) : Prop := Step k op k' ∧ op.Fine k

/-- The invariant of such a run. -/
structure DeferredRunOk (U : Multiset Nat) (k : Kernel) : Prop where
  block : BlockOk U k
  deferred : DeferredOk k

/-- In every run in which no write that a task waits for is failed, each
deferral of a task by the write handler is completed exactly once, a task that
does not wait is not referenced by the write handler, and a task that waits
has a message on its way.  The next step keeps this exactly if it does not
fail a write that a task waits for. -/
theorem settled_of_run {U : Multiset Nat} {baseAddr pages : Nat} {msgHdlrs : Bool}
    {permissions : Nat → ShadowPTE} {memory : Nat → Nat} {ops : List Op} {k : Kernel}
    (hnodup : U.Nodup) (hU : ∀ p ∈ U, 0 < p ∧ p < 2 ^ 20)
    (hrun : Run FineStep (Kernel.init baseAddr pages msgHdlrs permissions U memory) ops k) :
    k.Settled ∧
    (∀ mhp ∈ k.ivPending .write, ∃ m ∈ k.messages, m.type = .write ∧ m.key = mhp.key) ∧
    (∀ op k', Step k op k' → (k'.Settled ↔ op.Fine k)) := by
  have hinit : DeferredRunOk U (Kernel.init baseAddr pages msgHdlrs permissions U memory) := by
    refine ⟨BlockOk.init hnodup hU, fun t => ⟨rfl, fun _ hno => absurd rfl hno, ?_, rfl⟩⟩
    exact ⟨Nat.zero_le 1, fun hno => absurd rfl hno⟩
  have hok : DeferredRunOk U k := by
    refine hrun.invariant hinit ?_
    intro s op s' h hstep
    have heffect := h.block.effect_of_step hstep.1
    exact ⟨h.block.effect heffect, h.deferred.effect hstep.2 heffect⟩
  refine ⟨hok.deferred.settled, ?_, ?_⟩
  · intro mhp hmhp
    apply hok.block.msgs.message_of_waiting
    exact ne_nil_of_mem (mem_filter.mpr ⟨hmhp, by simp⟩)
  · intro op k' hstep
    have heffect := hok.block.effect_of_step hstep
    refine ⟨fun hsettled => ?_, fun hfine => (hok.deferred.effect hfine heffect).settled⟩
    intro position rc content m hop hm htype hrc mhp hmhp
    by_contra hno
    obtain ⟨t, htask⟩ := Option.ne_none_iff_exists'.mp hno
    subst hop
    cases heffect with
    | respond _ _ _ m' k' hm' hrecv =>
      rw [hm, Option.some.injEq] at hm'
      subst hm'
      have hanswer : DeferredOk (k.answer position m rc content) :=
        hok.deferred.congr rfl rfl rfl
      rw [htype] at hrecv
      exact hanswer.not_settled hrc hrecv hmhp htask hsettled

/-- A block of two writable pages. -/
def twoPages : Kernel :=
  Kernel.init 0 2 true
    (fun _ => ⟨0, false, true, true, false, true, false, false, 0⟩) {5, 6} (fun _ => 0)

/-- Task 1 stores to both pages and removes them. -/
def removeTwoPages : List Op :=
  [.fault 1 0 true (some 5), .respond 0 0 0, .fault 1 1 true (some 6), .respond 0 0 0,
    .removePages .release 0 8192 (some 1)]

/-- Task 1 waits for two writes and is settled after both responses. -/
theorem settled_of_run_two_pages :
    ∃ k, Run FineStep twoPages (removeTwoPages ++ [.respond 1 0 0, .respond 0 0 0]) k ∧
      k.deferrals 1 = 1 ∧ k.Settled := by
  have hrun : ∃ k, Run FineStep twoPages (removeTwoPages ++ [.respond 1 0 0, .respond 0 0 0]) k ∧
      k.deferrals 1 = 1 := by
    refine ⟨_, .cons ⟨⟨⟨rfl, ?_⟩, rfl⟩, ?_⟩ (.cons ⟨⟨Nat.zero_lt_one, rfl⟩, ?_⟩
      (.cons ⟨⟨⟨rfl, ?_⟩, rfl⟩, ?_⟩ (.cons ⟨⟨Nat.zero_lt_one, rfl⟩, ?_⟩
      (.cons ⟨⟨?_, rfl⟩, ?_⟩ (.cons ⟨⟨Nat.one_lt_two, rfl⟩, ?_⟩
        (.cons ⟨⟨Nat.zero_lt_one, rfl⟩, ?_⟩ .nil)))))), rfl⟩
    · rintro p ⟨⟩
      decide
    · exact Op.fine_of_success _ fun _ _ _ hop => by cases hop
    · exact Op.fine_of_success _ fun _ _ _ hop => by cases hop; rfl
    · rintro p ⟨⟩
      exact (by decide : 6 ∈ ({5, 6} : Multiset Nat).erase 5)
    · exact Op.fine_of_success _ fun _ _ _ hop => by cases hop
    · exact Op.fine_of_success _ fun _ _ _ hop => by cases hop; rfl
    · rintro t ⟨⟩
      rfl
    · exact Op.fine_of_success _ fun _ _ _ hop => by cases hop
    · exact Op.fine_of_success _ fun _ _ _ hop => by cases hop; rfl
    · exact Op.fine_of_success _ fun _ _ _ hop => by cases hop; rfl
  obtain ⟨k, hrun, hdeferrals⟩ := hrun
  exact ⟨k, hrun, hdeferrals, (settled_of_run (by decide) (by decide) hrun).1⟩

/-- Both writes task 1 waits for fail: it is ended twice, and its node stays in
the list of the write handler. -/
theorem ended_twice_after_failed_writes :
    ∃ k, Run Step twoPages (removeTwoPages ++ [.respond 0 1 0, .respond 0 1 0]) k ∧
      k.deferrals 1 = 1 ∧ k.tasks.events.count (.ended .write 1) = 2 ∧
      k.ivPending .write = [] ∧ k.ivMsgGrpList = [⟨1, 2⟩] ∧ ¬ k.Settled := by
  refine ⟨_, .cons ⟨⟨rfl, ?_⟩, rfl⟩ (.cons ⟨Nat.zero_lt_one, rfl⟩ (.cons ⟨⟨rfl, ?_⟩, rfl⟩
    (.cons ⟨Nat.zero_lt_one, rfl⟩ (.cons ⟨?_, rfl⟩ (.cons ⟨Nat.zero_lt_two, rfl⟩
      (.cons ⟨Nat.zero_lt_one, rfl⟩ .nil)))))), rfl, rfl, rfl, rfl, ?_⟩
  · rintro p ⟨⟩
    decide
  · rintro p ⟨⟩
    exact (by decide : 6 ∈ ({5, 6} : Multiset Nat).erase 5)
  · rintro t ⟨⟩
    rfl
  · intro hsettled
    exact (hsettled 1).2 rfl ⟨1, 2⟩ mem_cons_self rfl

end Hostboot.Vmm
