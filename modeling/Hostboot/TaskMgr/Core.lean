import Mathlib.Logic.Function.Basic
import Hostboot.Util.Containers
import Hostboot.Util.Machine

/-!
# The task manager

`TaskManager` of `src/kernel/taskmgr.C` with the list of stacks of
`src/kernel/stacksegment.C`.  Every task has a tracker.  The trackers form a tree, by
their parents and by their lists of children; the tracker of a finished task stays
in the tree until the parent waits for it.

A pointer to a task or to its tracker is the number of the creation, so a pointer is
never used twice.  The lists of trackers are those of `src/include/util/locked/list.H`,
as lists from `head`.  `removeTracker` erases a finished tracker that has lost its
parent from the list of the kernel, where it is not; the list of the model stays
as it is then.

The trees are changed under one lock, so a system call is one step.  A `kassert`
that fails, or a pointer that is not valid, is no result.
-/

namespace Hostboot.TaskMgr

open Hostboot.Util

def EDEADLK : Int := 35

/-- `enum task_status`. -/
inductive TaskStatus where
  | exitedClean
  | crashed
  deriving DecidableEq, Repr

/-- The value that is stored for a status. -/
def TaskStatus.value : TaskStatus → Int
  | .exitedClean => 0
  | .crashed => 1

/-- The states of a task that the task manager sets. -/
inductive TaskState where
  | ready
  | blockJoin
  deriving DecidableEq, Repr

/-- `task_wait_t`, with the addresses for the results. -/
structure TaskWait where
  tid : Int
  status : Option Nat
  retval : Option Nat
  deriving DecidableEq, Repr

/-- The test of `_endTask`: the wait is for any task, or for the task with this tid. -/
def TaskWait.Matches (wait : TaskWait) (tid : Nat) : Prop := wait.tid < 0 ∨ wait.tid = tid

instance (wait : TaskWait) (tid : Nat) : Decidable (wait.Matches tid) :=
  inferInstanceAs (Decidable (_ ∨ _))

/-- `task_tracking_t`.  `task` is null when the task is finished. -/
structure Tracker where
  parent : Option Nat
  children : List Nat
  key : Nat
  task : Option Nat
  status : Int
  retval : Nat
  waitInfo : Option TaskWait
  deriving DecidableEq, Repr

/-- The parts of `task_t` that the task manager uses.  `rtn` is the register for the
result of a system call. -/
structure Task where
  tid : Nat
  stackPtr : Nat
  state : TaskState
  detached : Bool
  rtn : Int
  deriving DecidableEq, Repr

/-- `StackBlockNode`, with the address and the size of its block. -/
structure StackBlockNode where
  key : Nat
  address : Nat
  size : Nat
  deriving DecidableEq, Repr

/-- The task manager and the stack segment.  `created` is the number of tasks created so
far, and so the pointer to the next task. -/
structure State where
  trackers : Nat → Option Tracker
  tasks : Nat → Option Task
  taskList : List Nat
  blockList : List StackBlockNode
  nextTid : Nat
  created : Nat
  memory : Nat → Int

def MEGABYTE : Nat := 1024 * 1024

/-- `VMM_VADDR_STACK_SEGMENT`: 1 TB. -/
def VMM_VADDR_STACK_SEGMENT : Nat := 1024 * 1024 * MEGABYTE

/-- The base of the 8 MB range of a task. -/
def addr8mb (tid : Nat) : Nat := tid * (8 * MEGABYTE) + VMM_VADDR_STACK_SEGMENT

namespace State

variable (s : State)

/-- The kernel before the first task. -/
def init : State where
  trackers := fun _ => none
  tasks := fun _ => none
  taskList := []
  blockList := []
  nextTid := 0
  created := 0
  memory := fun _ => 0

def setTracker (n : Nat) (tracker : Tracker) : State :=
  { s with trackers := Function.update s.trackers n (some tracker) }

def setTask (n : Nat) (task : Task) : State :=
  { s with tasks := Function.update s.tasks n (some task) }

/-- The store to an address that may be null. -/
def store (addr : Option Nat) (value : Int) : State :=
  match addr with
  | none => s
  | some addr => { s with memory := Function.update s.memory addr value }

/-- `TASK_SETRTN`. -/
def taskSetRtn (n : Nat) (value : Int) : State :=
  match s.tasks n with
  | none => s
  | some task => s.setTask n { task with rtn := value }

/-- `Scheduler::addTask`, as far as the task is concerned. -/
def addTask (n : Nat) : State :=
  match s.tasks n with
  | none => s
  | some task => s.setTask n { task with state := .ready }

/-! ## Stacks -/

/-- `StackSegment::_createStack`: the top of the stack. -/
def createStack (tid : Nat) : Option (Nat × State) :=
  if (s.blockList.find? fun node => node.key = addr8mb tid).isSome then none
  else
    let bottom := (64 + 128 * (tid % 61)) * 1024
    let top := bottom + 256 * 1024 - 8
    let node : StackBlockNode := ⟨addr8mb tid, addr8mb tid + bottom, 256 * 1024⟩
    some (addr8mb tid + top, { s with blockList := node :: s.blockList })

/-- `StackSegment::_deleteStack`. -/
def deleteStack (tid : Nat) : Option State :=
  match s.blockList.find? fun node => node.key = addr8mb tid with
  | none => none
  | some node => some { s with blockList := s.blockList.erase node }

/-! ## The tree of trackers -/

/-- `trackingList->insert(child)` for the list of a parent or of the kernel. -/
def insertTracker (parent : Option Nat) (child : Nat) : State :=
  match parent with
  | none => { s with taskList := child :: s.taskList }
  | some p =>
    match s.trackers p with
    | none => s
    | some tracker => s.setTracker p { tracker with children := child :: tracker.children }

/-- `trackingList->erase(t)`. -/
def eraseTracker (parent : Option Nat) (t : Nat) : State :=
  match parent with
  | none => { s with taskList := s.taskList.erase t }
  | some p =>
    match s.trackers p with
    | none => s
    | some tracker => s.setTracker p { tracker with children := tracker.children.erase t }

/-- `child->parent = parent`. -/
def setParent (child : Nat) (parent : Option Nat) : State :=
  match s.trackers child with
  | none => s
  | some tracker => s.setTracker child { tracker with parent := parent }

def deleteTracker (t : Nat) : State := { s with trackers := Function.update s.trackers t none }

/-- The tracker is one of a finished task. -/
def finished (n : Nat) : Bool :=
  match s.trackers n with
  | none => false
  | some tracker => tracker.task.isNone

/-- The task has ended with a crash. -/
def crashed (n : Nat) : Bool :=
  match s.trackers n with
  | none => false
  | some tracker => tracker.status = TaskStatus.crashed.value

end State

/-- The loop of `removeTracker`, and the deletion after it.  The number bounds the
iterations. -/
def drain : Nat → State → Nat → Option State
  | 0, _, _ => none
  | fuel + 1, s, t =>
    match s.trackers t with
    | none => none
    | some tracker =>
      match Queue.remove tracker.children with
      | none => some (s.deleteTracker t)
      | some (child, rest) =>
        let s := (s.setTracker t { tracker with children := rest }).setParent child tracker.parent
        if tracker.parent = none ∧ s.finished child then
          if s.crashed child then none
          else (drain fuel (s.eraseTracker none child) child).bind fun s => drain fuel s t
        else drain fuel (s.insertTracker tracker.parent child) t

attribute [grind =] drain

namespace State

variable (s : State)

def removeTracker (t : Nat) : Option State :=
  match s.trackers t with
  | none => none
  | some tracker => drain (s.created + 1) (s.eraseTracker tracker.parent t) t

/-! ## System calls -/

/-- The new tracker is put into the tree, and the task into the kernel. -/
def addTracker (stackPtr : Nat) (current : Option Nat) (kernelParent : Bool) : State :=
  let parent := if kernelParent then none else current
  let tracker : Tracker := ⟨parent, [], s.nextTid, some s.created, -1, 0, none⟩
  let s' := (s.setTracker s.created tracker).setTask s.created ⟨s.nextTid, stackPtr, .ready, false, 0⟩
  { s'.insertTracker parent s.created with
    nextTid := (s.nextTid + 1) % 2 ^ 16
    created := s.created + 1 }

/-- `_createTask`, called by the task `current`. -/
def createTask (current : Option Nat) (withStack kernelParent : Bool) : Option State :=
  if withStack then
    match s.createStack s.nextTid with
    | none => none
    | some (stackPtr, s) => some (s.addTracker stackPtr current kernelParent)
  else some (s.addTracker 0 current kernelParent)

theorem createTask_cases {s s' : State} {current : Option Nat} {withStack kernelParent : Bool}
    (h : s.createTask current withStack kernelParent = some s') :
    (withStack = false ∧ s' = s.addTracker 0 current kernelParent) ∨
      (withStack = true ∧ (s.blockList.find? fun node => node.key = addr8mb s.nextTid) = none ∧
        ∃ stackPtr node, node.key = addr8mb s.nextTid ∧
          s' = State.addTracker { s with blockList := node :: s.blockList } stackPtr current
            kernelParent) := by
  unfold createTask at h
  cases withStack with
  | false =>
    rw [if_neg (by simp)] at h
    exact Or.inl ⟨rfl, (Option.some.inj h).symm⟩
  | true =>
    rw [if_pos rfl] at h
    unfold createStack at h
    cases hfind : s.blockList.find? fun node => node.key = addr8mb s.nextTid with
    | none =>
      rw [hfind] at h
      exact Or.inr ⟨rfl, rfl, _, _, rfl, (Option.some.inj h).symm⟩
    | some node =>
      rw [hfind] at h
      exact absurd h (by simp)

/-- `task_detach`. -/
def taskDetach (t : Nat) : Option State :=
  match s.tasks t with
  | none => none
  | some task => some (s.setTask t { task with detached := true })

/-- The stores of `_endTask` to the tracker. -/
def finishTracker (t : Nat) (tracker : Tracker) (retval : Nat) (status : TaskStatus) : State :=
  s.setTracker t { tracker with status := status.value, retval := retval, task := none }

/-- The part of `_endTask` under the lock, after the stores to the tracker. -/
def join (t : Nat) (task : Task) (tracker : Tracker) (retval : Nat) (status : TaskStatus) :
    Option State :=
  if task.detached then
    if status = .crashed then none else s.removeTracker t
  else
    match tracker.parent with
    | none => if status = .crashed then none else s.removeTracker t
    | some p =>
      match s.trackers p with
      | none => none
      | some parent =>
        match parent.waitInfo with
        | none => some s
        | some wait =>
          if wait.Matches task.tid then
            match parent.task with
            | none => none
            | some parentTask =>
              let s := (s.store wait.status status.value).store wait.retval retval
              let s := s.setTracker p { parent with waitInfo := none }
              ((s.taskSetRtn parentTask task.tid).removeTracker t).map (·.addTask parentTask)
          else some s

/-- `_endTask`. -/
def endTask (t retval : Nat) (status : TaskStatus) : Option State :=
  match s.tasks t, s.trackers t with
  | some task, some tracker =>
    match (s.finishTracker t tracker retval status).join t task tracker retval status with
    | none => none
    | some s =>
      match s.deleteStack task.tid with
      | none => none
      | some s => some { s with tasks := Function.update s.tasks t none }
  | _, _ => none

/-- The search of `_waitTask` among the children: `none` for `EDEADLK`, otherwise the
finished child if one was found. -/
def findChild (tracker : Tracker) (tid : Int) : Option (Option Nat) :=
  if tid < 0 then
    if tracker.children = [] then none else some (tracker.children.find? fun c => s.finished c)
  else
    let found := tracker.children.find? fun c =>
      (s.trackers c).any fun child => child.key = tid.toNat % 2 ^ 16
    match found with
    | none => none
    | some c => if s.finished c then some (some c) else some none

/-- `_waitTask`. -/
def waitTask (t : Nat) (tid : Int) (status retval : Option Nat) : Option State :=
  match s.tasks t, s.trackers t with
  | some task, some tracker =>
    match s.findChild tracker tid with
    | none => some (s.taskSetRtn t (-EDEADLK))
    | some (some c) =>
      match s.trackers c with
      | none => none
      | some child =>
        let s := s.taskSetRtn t child.key
        ((s.store status child.status).store retval child.retval).removeTracker c
    | some none =>
      let s := s.setTracker t { tracker with waitInfo := some ⟨tid, status, retval⟩ }
      some (s.setTask t { task with state := .blockJoin })
  | _, _ => none

end State

/-- The operations of the kernel on tasks. -/
inductive Op where
  | create (current : Option Nat) (withStack kernelParent : Bool)
  | detach (t : Nat)
  | endTask (t retval : Nat) (status : TaskStatus)
  | waitTask (t : Nat) (tid : Int) (status retval : Option Nat)
  deriving DecidableEq, Repr

/-- The task exists and is not blocked in a wait. -/
def State.Runs (s : State) (t : Nat) : Prop :=
  (s.tasks t).isSome ∧ ∃ tracker, s.trackers t = some tracker ∧ tracker.waitInfo = none

/-- A task that takes a step is not blocked in a wait. -/
def Op.Allowed (s : State) : Op → Prop
  | .create current _ _ => ∀ t, current = some t → s.Runs t
  | .detach t | .endTask t _ _ | .waitTask t _ _ _ => s.Runs t

/-- One operation. -/
def State.exec (s : State) : Op → Option State
  | .create current withStack kernelParent => s.createTask current withStack kernelParent
  | .detach t => s.taskDetach t
  | .endTask t retval status => s.endTask t retval status
  | .waitTask t tid status retval => s.waitTask t tid status retval

/-- An allowed operation with a result. -/
def Step (s : State) (op : Op) (s' : State) : Prop := op.Allowed s ∧ s.exec op = some s'

end Hostboot.TaskMgr
