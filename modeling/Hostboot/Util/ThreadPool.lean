import Mathlib.Data.Fintype.Basic
import Mathlib.Data.Fintype.Card
import Hostboot.Lib.Run

/-!
# The thread pool

`ThreadPoolImpl` of `src/usr/util/threadpool.C`: a work list that producers
insert into and worker threads remove from, under one mutex with one condition
variable.  A pool is started once, by the thread that owns it, and is shut down
once.

The worker threads are numbered; a pool starts `n` of them.  A state says where
every thread is in its function, who holds the mutex, and what the fields of the
pool are.  `Step` has one constructor for each thing a thread does: taking the
mutex, the accesses to the fields while it holds it, and giving the mutex back.

The mutex and the condition variable are what they are specified to be.  Waiting
gives the mutex back and sleeps in one step; a signal wakes a worker that sleeps,
if there is one; a broadcast wakes all; and a worker may wake up by itself at any
time, which also covers a signal that wakes more than one.  A worker that woke up
takes the mutex again before it goes on.

The order function of `__remove` may choose any item of the list.  What a worker
does with an item may crash and end its task.  The error logs of `__shutdown`
are left out.  `id`, `inserted`, `handed` and `mark` are ghosts: the number of an
insertion, how many there were, which item was handed to which worker, and how
many items were inserted when the last empty-handed remove so far ended.
-/

namespace Hostboot.ThreadPool

/-- An item of the work list: a pointer, and the number of its insertion. -/
structure Item where
  id : Nat
  ptr : Nat
  deriving DecidableEq, Repr

/-- How a worker thread has ended. -/
inductive End where
  /-- `__remove` found no work. -/
  | emptyHanded
  /-- `__remove` returned an item that is a null pointer. -/
  | nullItem
  /-- The task crashed in a work item. -/
  | crashed
  deriving DecidableEq, Repr

/-- Where a worker thread is in `run` and `__remove`. -/
inductive Worker where
  /-- Not created yet. -/
  | absent
  /-- Before `mutex_lock`. -/
  | enter
  /-- At the head of the inner loop, with the mutex. -/
  | check
  /-- Asleep in `sync_cond_wait`. -/
  | waiting
  /-- Awake in `sync_cond_wait`, before it has the mutex. -/
  | woken
  /-- Before `mutex_unlock`. -/
  | leave (val : Option Item)
  /-- In the work item. -/
  | running (item : Item)
  | ended (how : End)
  deriving DecidableEq, Repr

/-- Where a producer is in `__insert`. -/
inductive Producer where
  | idle
  | lock (ptr : Nat)
  | push (ptr : Nat)
  | signal
  | unlock
  deriving DecidableEq, Repr

/-- Where the owner of the pool is in `__start` and `__shutdown`. -/
inductive Owner (n : Nat) where
  | fresh
  | lockStart
  /-- Creating the children that are left. -/
  | create (left : List (Fin n))
  | started
  | lockShutdown
  | setFlag
  | broadcast
  /-- At the head of the loop that joins the children. -/
  | join
  | waitTid (child : Fin n)
  | relock
  | returned
  deriving DecidableEq, Repr

/-- The threads. -/
inductive Thread (n : Nat) where
  | worker (w : Fin n)
  | producer (p : Nat)
  | owner
  deriving DecidableEq, Repr

/-- The threads, the mutex and the fields of the pool. -/
structure State (n : Nat) where
  workers : Fin n → Worker
  producers : Nat → Producer
  owner : Owner n
  /-- Who holds `iv_mutex`. -/
  ivMutex : Option (Thread n)
  ivWorklist : List Item
  ivChildren : List (Fin n)
  ivShutdown : Bool
  inserted : Nat
  handed : List (Nat × Fin n)
  mark : Nat

variable {n : Nat}

/-- `ThreadPoolImpl::__init`. -/
def State.init (n : Nat) : State n where
  workers := fun _ => .absent
  producers := fun _ => .idle
  owner := .fresh
  ivMutex := none
  ivWorklist := []
  ivChildren := []
  ivShutdown := false
  inserted := 0
  handed := []
  mark := 0

namespace State

def setWorker (s : State n) (w : Fin n) (x : Worker) : State n :=
  { s with workers := Function.update s.workers w x }

@[simp] theorem setWorker_self (s : State n) (w : Fin n) (x : Worker) :
    (s.setWorker w x).workers w = x := Function.update_self _ _ _

theorem setWorker_of_ne {w w' : Fin n} (s : State n) (x : Worker) (h : w' ≠ w) :
    (s.setWorker w x).workers w' = s.workers w' := Function.update_of_ne h _ _

def setProducer (s : State n) (p : Nat) (x : Producer) : State n :=
  { s with producers := Function.update s.producers p x }

theorem setProducer_of_ne {p p' : Nat} (s : State n) (x : Producer) (h : p' ≠ p) :
    (s.setProducer p x).producers p' = s.producers p' := Function.update_of_ne h _ _

def setOwner (s : State n) (x : Owner n) : State n := { s with owner := x }

/-- The state with the mutex in the hands of a thread, or of nobody. -/
def setMutex (s : State n) (holder : Option (Thread n)) : State n := { s with ivMutex := holder }

/-- The workers after a broadcast. -/
def wakeAll (s : State n) : State n :=
  { s with workers := fun w => if s.workers w = .waiting then .woken else s.workers w }

end State

/-- Where a worker goes with what `__remove` returned. -/
def Worker.after : Option Item → Worker
  | none => .ended .emptyHanded
  | some item => if item.ptr = 0 then .ended .nullItem else .running item

/-- One step of a thread. -/
inductive Step (s : State n) : Thread n → State n → Prop
  /- `__insert` -/
  | insert (p ptr : Nat) (at_ : s.producers p = .idle) :
      Step s (.producer p) (s.setProducer p (.lock ptr))
  | insertLock (p ptr : Nat) (at_ : s.producers p = .lock ptr) (free : s.ivMutex = none) :
      Step s (.producer p) ((s.setProducer p (.push ptr)).setMutex (some (.producer p)))
  | insertPush (p ptr : Nat) (at_ : s.producers p = .push ptr) :
      Step s (.producer p)
        { s.setProducer p .signal with
          ivWorklist := s.ivWorklist ++ [⟨s.inserted, ptr⟩]
          inserted := s.inserted + 1 }
  | insertSignal (p : Nat) (w : Fin n) (at_ : s.producers p = .signal)
      (sleeps : s.workers w = .waiting) :
      Step s (.producer p) ((s.setProducer p .unlock).setWorker w .woken)
  | insertSignalNone (p : Nat) (at_ : s.producers p = .signal)
      (nobody : ∀ w, s.workers w ≠ .waiting) :
      Step s (.producer p) (s.setProducer p .unlock)
  | insertUnlock (p : Nat) (at_ : s.producers p = .unlock) :
      Step s (.producer p) ((s.setProducer p .idle).setMutex none)
  /- `__remove` and `run` -/
  | removeLock (w : Fin n) (at_ : s.workers w = .enter) (free : s.ivMutex = none) :
      Step s (.worker w) ((s.setWorker w .check).setMutex (some (.worker w)))
  | removeWait (w : Fin n) (at_ : s.workers w = .check) (empty : s.ivWorklist = [])
      (goesOn : s.ivShutdown = false) :
      Step s (.worker w) ((s.setWorker w .waiting).setMutex none)
  | removeWoken (w : Fin n) (at_ : s.workers w = .woken) (free : s.ivMutex = none) :
      Step s (.worker w) ((s.setWorker w .check).setMutex (some (.worker w)))
  | removeBreak (w : Fin n) (at_ : s.workers w = .check) (empty : s.ivWorklist = [])
      (stops : s.ivShutdown = true) :
      Step s (.worker w) (s.setWorker w (.leave none))
  | removeItem (w : Fin n) (before after : List Item) (item : Item) (at_ : s.workers w = .check)
      (chosen : s.ivWorklist = before ++ item :: after) :
      Step s (.worker w)
        { s.setWorker w (.leave (some item)) with
          ivWorklist := before ++ after
          handed := s.handed ++ [(item.id, w)] }
  | removeUnlock (w : Fin n) (val : Option Item) (at_ : s.workers w = .leave val) :
      Step s (.worker w)
        { (s.setWorker w (.after val)).setMutex none with
          mark := if val.isNone then s.inserted else s.mark }
  | finish (w : Fin n) (item : Item) (at_ : s.workers w = .running item) :
      Step s (.worker w) (s.setWorker w .enter)
  | crash (w : Fin n) (item : Item) (at_ : s.workers w = .running item) :
      Step s (.worker w) (s.setWorker w (.ended .crashed))
  | spurious (w : Fin n) (at_ : s.workers w = .waiting) :
      Step s (.worker w) (s.setWorker w .woken)
  /- `__start` -/
  | start (at_ : s.owner = .fresh) : Step s .owner (s.setOwner .lockStart)
  | startLock (at_ : s.owner = .lockStart) (free : s.ivMutex = none) :
      Step s .owner ((s.setOwner (.create (List.finRange n))).setMutex (some .owner))
  | startCreate (child : Fin n) (left : List (Fin n)) (at_ : s.owner = .create (child :: left)) :
      Step s .owner
        { (s.setOwner (.create left)).setWorker child .enter with
          ivChildren := s.ivChildren ++ [child] }
  | startUnlock (at_ : s.owner = .create []) :
      Step s .owner ((s.setOwner .started).setMutex none)
  /- `__shutdown` -/
  | shutdown (at_ : s.owner = .fresh ∨ s.owner = .started) :
      Step s .owner (s.setOwner .lockShutdown)
  | shutdownLock (at_ : s.owner = .lockShutdown) (free : s.ivMutex = none) :
      Step s .owner ((s.setOwner .setFlag).setMutex (some .owner))
  | shutdownFlag (at_ : s.owner = .setFlag) :
      Step s .owner { s.setOwner .broadcast with ivShutdown := true }
  | shutdownBroadcast (at_ : s.owner = .broadcast) :
      Step s .owner (s.wakeAll.setOwner .join)
  | joinChild (child : Fin n) (rest : List (Fin n)) (at_ : s.owner = .join)
      (children : s.ivChildren = child :: rest) :
      Step s .owner { (s.setOwner (.waitTid child)).setMutex none with ivChildren := rest }
  | joined (child : Fin n) (how : End) (at_ : s.owner = .waitTid child)
      (done : s.workers child = .ended how) :
      Step s .owner (s.setOwner .relock)
  | relock (at_ : s.owner = .relock) (free : s.ivMutex = none) :
      Step s .owner ((s.setOwner .join).setMutex (some .owner))
  | shutdownReturn (at_ : s.owner = .join) (none : s.ivChildren = []) :
      Step s .owner ((s.setOwner .returned).setMutex .none)

end Hostboot.ThreadPool
