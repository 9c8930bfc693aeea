import Mathlib.Logic.Function.Basic
import Mathlib.Data.Nat.Notation
import Hostboot.Util.Containers

/-!
# The message system calls

`MsgSend`, `MsgSendRecv`, `MsgRespond` and `MsgWait` of `src/kernel/syscall.C`
on the message queues of user space.  A queue keeps the messages nobody has
waited for, the objects of the messages that wait for a response, and the
tasks that wait for a message.  A system call runs under the lock of its
queue, so it is one step.  `MsgRespond` to a pseudo-sync message takes the lock
of a second queue after it gave back the first; this part is a step of its
own, and other tasks can run in between.

A message is known by the address of its `msg_t`.  Its reserved bits are
written by `MsgSend` and `MsgSendRecv` and are read by `MsgWait` and
`MsgRespond`.  `MessagePending::task` is a pointer to a task or, cast, to a
message queue; using it as what it is not has no result.  Messages of the
kernel and of other nodes are left out, and so are the handles that are not
those of a queue or a message.

The last fields are not in the source.  They record where a submitted message
is, what was sent to a queue, which task waited for and got what, and which
synchronous calls a task made and was resumed from.
-/

namespace Hostboot.Msg

open Hostboot.Util
open Function (update)

def MSG_FIRST_SYS_TYPE : Nat := 0x80000000

/-- The fields of `msg_t` that the system calls look at.  `async` is set for a
message that expects a response. -/
structure Message where
  type : Nat
  async : Bool
  pseudosync : Bool
  deriving DecidableEq, Repr

/-- A `task_t*` as it stands in a pending object. -/
inductive Pointer where
  | null
  | task (t : Nat)
  | queue (q : Nat)
  deriving DecidableEq, Repr

/-- `MessagePending`.  The last field is not in the source: the object was made
by `MsgRespond`. -/
structure MessagePending where
  key : Nat
  task : Pointer
  reply : Bool
  deriving DecidableEq, Repr

/-- `MessageQueue`, each list from its head. -/
structure MessageQueue where
  messages : List MessagePending
  responses : List MessagePending
  waiting : List Nat
  deriving DecidableEq, Repr

/-- What a task does, as far as messages are concerned. -/
inductive TaskState where
  | running
  /-- Deferred in `msg_sendrecv` of a message to a queue. -/
  | sending (q m : Nat)
  /-- Deferred in `msg_wait`. -/
  | waiting (q : Nat)
  /-- In `msg_respond`, before it posts the message to the second queue. -/
  | responding (m q : Nat)
  deriving DecidableEq, Repr

/-- Where a submitted message is. -/
inductive Place where
  | idle
  | queued (q : Nat)
  /-- It was delivered, and a response is expected. -/
  | held (q : Nat)
  /-- A task is about to post it as a response. -/
  | posting (t : Nat)
  deriving DecidableEq, Repr

/-- The messages, the queues and the tasks. -/
structure State where
  msgs : Nat → Message
  queues : Nat → MessageQueue
  tasks : Nat → TaskState
  /-- Where each message is. -/
  place : Nat → Place
  /-- What was sent to a queue, oldest first. -/
  sent : Nat → List Nat
  /-- The tasks that called `msg_wait` on a queue, oldest first. -/
  waits : Nat → List Nat
  /-- What was delivered from a queue and to which task, oldest first. -/
  delivered : Nat → List (Nat × Nat)
  /-- The `msg_sendrecv` calls of a task, newest first. -/
  calls : Nat → List (Nat × Nat)
  /-- The messages whose response resumed a task, newest first. -/
  resumes : Nat → List (Nat × Nat)

namespace State

def setMsg (s : State) (m : Nat) (msg : Message) : State :=
  { s with msgs := update s.msgs m msg }

def setTask (s : State) (t : Nat) (state : TaskState) : State :=
  { s with tasks := update s.tasks t state }

def setQueue (s : State) (q : Nat) (mq : MessageQueue) : State :=
  { s with queues := update s.queues q mq }

def setPlace (s : State) (m : Nat) (place : Place) : State :=
  { s with place := update s.place m place }

@[simp] theorem setMsg_msgs (s : State) (m : Nat) (msg : Message) :
    (s.setMsg m msg).msgs = update s.msgs m msg := rfl

@[simp] theorem setTask_tasks (s : State) (t : Nat) (state : TaskState) :
    (s.setTask t state).tasks = update s.tasks t state := rfl

@[simp] theorem setQueue_queues (s : State) (q : Nat) (mq : MessageQueue) :
    (s.setQueue q mq).queues = update s.queues q mq := rfl

@[simp] theorem setPlace_place (s : State) (m : Nat) (place : Place) :
    (s.setPlace m place).place = update s.place m place := rfl

/-- Nobody waits for the message: it goes to the list of messages. -/
def enqueue (s : State) (q : Nat) (mp : MessagePending) : State :=
  { s with
    queues := update s.queues q
      { s.queues q with messages := Queue.insert (s.queues q).messages mp }
    place := update s.place mp.key (.queued q)
    sent := update s.sent q (s.sent q ++ [mp.key]) }

/-- The message goes to a waiting task.  `keep` says whether a response is
expected. -/
def handOver (s : State) (q : Nat) (mp : MessagePending) (keep : Bool) (waiter : Nat)
    (rest : List Nat) : State :=
  { s with
    queues := update s.queues q
      { s.queues q with
        responses :=
          if keep then Queue.insert (s.queues q).responses mp else (s.queues q).responses
        waiting := rest }
    tasks := update s.tasks waiter .running
    place := update s.place mp.key (if keep then .held q else .idle)
    sent := update s.sent q (s.sent q ++ [mp.key])
    delivered := update s.delivered q (s.delivered q ++ [(mp.key, waiter)]) }

/-- The part of the calls that hands a message to a queue. -/
def hand (s : State) (q : Nat) (mp : MessagePending) (keep : Bool) : State :=
  match Queue.remove (s.queues q).waiting with
  | none => s.enqueue q mp
  | some (waiter, rest) => s.handOver q mp keep waiter rest

/-- `MsgSend`. -/
def msgSend (s : State) (t q m : Nat) : State :=
  let s := s.setMsg m { s.msgs m with async := false }
  if (s.msgs m).type ≥ MSG_FIRST_SYS_TYPE then s
  else s.hand q ⟨m, .task t, false⟩ false

/-- The record of a call of `msg_sendrecv`. -/
def call (s : State) (t q m : Nat) : State :=
  { s with calls := update s.calls t ((q, m) :: s.calls t) }

/-- `MsgSendRecv`: `msg_sendrecv` without, and `msg_sendrecv_noblk` with, a
second queue. -/
def msgSendRecv (s : State) (t q m : Nat) (mq2 : Option Nat) : State :=
  let msg := s.msgs m
  let s := s.setMsg m
    { msg with async := true, pseudosync := msg.pseudosync || mq2.isSome }
  if msg.type ≥ MSG_FIRST_SYS_TYPE then s
  else
    let s := if mq2.isNone then s.call t q m else s
    if !(s.msgs m).pseudosync then
      (s.setTask t (.sending q m)).hand q ⟨m, .task t, false⟩ true
    else
      s.hand q ⟨m, match mq2 with | none => .null | some q2 => .queue q2, false⟩ true

/-- There is no message: the task waits. -/
def await (s : State) (t q : Nat) : State :=
  { s with
    queues := update s.queues q
      { s.queues q with waiting := Queue.insert (s.queues q).waiting t }
    tasks := update s.tasks t (.waiting q)
    waits := update s.waits q (s.waits q ++ [t]) }

/-- The task gets the oldest message. -/
def receive (s : State) (t q : Nat) (mp : MessagePending) (rest : List MessagePending) : State :=
  let keep := (s.msgs mp.key).async
  { s with
    queues := update s.queues q
      { s.queues q with
        messages := rest
        responses :=
          if keep then Queue.insert (s.queues q).responses mp else (s.queues q).responses }
    place := update s.place mp.key (if keep && !mp.reply then .held q else .idle)
    waits := update s.waits q (s.waits q ++ [t])
    delivered := update s.delivered q (s.delivered q ++ [(mp.key, t)]) }

/-- `MsgWait`. -/
def msgWait (s : State) (t q : Nat) : State :=
  match Queue.remove (s.queues q).messages with
  | none => s.await t q
  | some (mp, rest) => s.receive t q mp rest

/-- A deferred task goes on. -/
def resume (s : State) (t q m : Nat) : State :=
  { s.setTask t .running with
    resumes := update s.resumes t ((q, m) :: s.resumes t) }

/-- `MsgRespond`, up to the lock of the second queue. -/
def msgRespond (s : State) (t q m : Nat) : Option State :=
  let mq := s.queues q
  match mq.responses.find? (fun mp => mp.key = m) with
  | none => some s
  | some mp =>
    let s := s.setQueue q { mq with responses := mq.responses.erase mp }
    if (s.msgs m).type ≥ MSG_FIRST_SYS_TYPE then none
    else if (s.msgs m).pseudosync then
      match mp.task with
      | .queue q2 => some ((s.setTask t (.responding m q2)).setPlace m (.posting t))
      | _ => none
    else
      match mp.task with
      | .task waiter => some ((s.setPlace m .idle).resume waiter q m)
      | _ => none

/-- The second part of `MsgRespond` to a pseudo-sync message. -/
def postResponse (s : State) (t : Nat) : Option State :=
  match s.tasks t with
  | .responding m q2 => some ((s.setTask t .running).hand q2 ⟨m, .task t, true⟩ false)
  | _ => none

/-- The start: no message was submitted. -/
def init (msgs : Nat → Message) : State where
  msgs := msgs
  queues := fun _ => ⟨[], [], []⟩
  tasks := fun _ => .running
  place := fun _ => .idle
  sent := fun _ => []
  waits := fun _ => []
  delivered := fun _ => []
  calls := fun _ => []
  resumes := fun _ => []

end State

/-- The steps of the tasks. -/
inductive Op where
  | send (t q m : Nat)
  | sendrecv (t q m : Nat)
  | sendrecvNoblk (t q m q2 : Nat)
  | wait (t q : Nat)
  | respond (t q m : Nat)
  /-- A task in `msg_respond` posts the message to the second queue. -/
  | post (t : Nat)
  /-- `msg_allocate`, with a type written to the message. -/
  | allocate (m type : Nat)
  /-- A task writes the type of a message. -/
  | setType (m type : Nat)
  deriving DecidableEq, Repr

/-- A task makes a call while it runs, and a message is submitted or allocated
only while it is not submitted.  The type of a submitted message stays one of
user space. -/
def Op.Allowed (s : State) : Op → Prop
  | .send t _ m => s.tasks t = .running ∧ s.place m = .idle
  | .sendrecv t _ m => s.tasks t = .running ∧ s.place m = .idle
  | .sendrecvNoblk t _ m _ => s.tasks t = .running ∧ s.place m = .idle
  | .wait t _ => s.tasks t = .running
  | .respond t _ _ => s.tasks t = .running
  | .post t => ∃ m q2, s.tasks t = .responding m q2
  | .allocate m _ => s.place m = .idle
  | .setType m type => s.place m = .idle ∨ type < MSG_FIRST_SYS_TYPE

namespace State

/-- One step. -/
def exec (s : State) : Op → Option State
  | .send t q m => some (s.msgSend t q m)
  | .sendrecv t q m => some (s.msgSendRecv t q m none)
  | .sendrecvNoblk t q m q2 => some (s.msgSendRecv t q m (some q2))
  | .wait t q => some (s.msgWait t q)
  | .respond t q m => s.msgRespond t q m
  | .post t => s.postResponse t
  | .allocate m type => some (s.setMsg m ⟨type, false, false⟩)
  | .setType m type => some (s.setMsg m { s.msgs m with type := type })

end State

/-- An allowed step with a result. -/
def Step (s : State) (op : Op) (s' : State) : Prop := op.Allowed s ∧ s.exec op = some s'

end Hostboot.Msg
