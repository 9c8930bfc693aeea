import Hostboot.Msg.Delivery

/-!
# `msg_wait_timeout`

`msg_wait_timeout` and its helper task of `src/lib/syscall_msg.C` over the
message system calls.  A call allocates a message of its own and creates a task
that sleeps and then sends this message to the queue of the caller.  The caller
takes messages from the queue until it gets its own message.

The time that is left, which the call also computes, is not modelled.
-/

namespace Hostboot.Msg.Timeout

open Hostboot.Lib Hostboot.Util List
open Function (update update_of_ne update_self)

/-! ## The tasks -/

/-- `msg_wait_timeout_waiter_task`: before a turn of its loop or of the test of
it, before its `msg_send`, and after it. -/
inductive Timer where
  | polling (msToWait : Int)
  | leaving
  | finished
  deriving DecidableEq, Repr

def MS_PER_POLL : Int := 1

/-- One turn of the loop: the sleep, the subtraction and the test of `done`. -/
def Timer.poll (done : Bool) : Timer → Timer
  | .polling msToWait =>
    if msToWait > 0 then
      if done then .leaving else .polling (msToWait - MS_PER_POLL)
    else .leaving
  | timer => timer

/-- A call of `msg_wait_timeout`: its arguments to the helper task, its results
and whether it is in `msg_wait`. -/
structure Call where
  waiterDoneMsg : Nat
  /-- The helper task. -/
  waiter : Nat
  timer : Timer
  done : Bool
  results : List Nat
  inWait : Bool
  deriving DecidableEq, Repr

/-- The kernel and the task that calls `msg_wait_timeout`.  The last two fields
are not in the source: what the other tasks sent to the queue, and what the
finished calls returned. -/
structure Sys where
  kernel : State
  call : Option Call
  others : List Nat
  returned : List Nat

/-- The start. -/
def Sys.init (msgs : Nat → Message) : Sys := ⟨State.init msgs, none, [], []⟩

/-- The task that makes a call. -/
def opTask : Op → Option Nat
  | .send t _ _ | .sendrecv t _ _ | .sendrecvNoblk t _ _ _ | .wait t _ | .respond t _ _
  | .post t => some t
  | .allocate _ _ | .setType _ _ => none

/-- The message that a call names. -/
def opMessage : Op → Option Nat
  | .send _ _ m | .sendrecv _ _ m | .sendrecvNoblk _ _ m _ | .respond _ _ m
  | .allocate m _ | .setType m _ => some m
  | .wait _ _ | .post _ => none

/-- What the other tasks do: they do not wait on the queue `q`.  Between two
calls the task `c` responds to messages. -/
def Other (c q : Nat) (s : Sys) (op : Op) : Prop :=
  (opTask op ≠ some c ∨ ∃ q' m, op = .respond c q' m ∧ s.call = none ∧
    (s.kernel.msgs m).pseudosync = false) ∧
  ∀ t, op ≠ .wait t q

/-- Nobody has this message: it is in no queue and no task is about to post
it. -/
def Unused (k : State) (d : Nat) : Prop :=
  (∀ q, d ∉ (k.queues q).messages.map MessagePending.key) ∧
  ∀ t q, k.tasks t ≠ .responding d q

/-- The steps. -/
inductive Act where
  /-- The call up to the loop, with the address of the new message, the new task
  and `io_milliseconds`. -/
  | call (d w milliseconds : Nat)
  /-- The system call `msg_wait`. -/
  | wait
  /-- The return of `msg_wait` and the rest of the turn, or of the call. -/
  | receive
  /-- The helper task. -/
  | poll
  | send
  | other (op : Op)
  deriving DecidableEq, Repr

/-- A step of the task `c`, which calls `msg_wait_timeout` on the queue `q`, of
its helper task, or of another task. -/
inductive Step (c q : Nat) : Sys → Act → Sys → Prop
  | call {s : Sys} {d w milliseconds : Nat} (hidle : s.call = none) (hw : w ≠ c)
      (hunused : Unused s.kernel d) :
      Step c q s (.call d w milliseconds) { s with
        kernel := s.kernel.setMsg d ⟨0, false, false⟩
        call := some ⟨d, w, .polling (BitVec.ofNat 64 milliseconds).toInt, false, [], false⟩ }
  | wait {s : Sys} {call : Call} (hcall : s.call = some call) (hwait : call.inWait = false) :
      Step c q s .wait { s with
        kernel := s.kernel.msgWait c q
        call := some { call with inWait := true } }
  | accumulate {s : Sys} {call : Call} {msg : Nat} (hcall : s.call = some call)
      (hwait : call.inWait = true) (hrun : s.kernel.tasks c = .running)
      (hmsg : (s.kernel.delivered q).getLast? = some (msg, c)) (hne : msg ≠ call.waiterDoneMsg) :
      Step c q s .receive { s with
        call := some { call with
          results := call.results ++ [msg]
          done := true
          inWait := false } }
  | done {s : Sys} {call : Call} (hcall : s.call = some call)
      (hwait : call.inWait = true) (hrun : s.kernel.tasks c = .running)
      (hmsg : (s.kernel.delivered q).getLast? = some (call.waiterDoneMsg, c)) :
      Step c q s .receive { s with
        call := none
        returned := s.returned ++ call.results }
  | poll {s : Sys} {call : Call} {msToWait : Int} (hcall : s.call = some call)
      (htimer : call.timer = .polling msToWait) :
      Step c q s .poll { s with call := some { call with timer := call.timer.poll call.done } }
  | send {s : Sys} {call : Call} (hcall : s.call = some call) (htimer : call.timer = .leaving) :
      Step c q s .send { s with
        kernel := s.kernel.msgSend call.waiter q call.waiterDoneMsg
        call := some { call with timer := .finished } }
  | other {s : Sys} {op : Op} {k : State} (hstep : Msg.Step s.kernel op k)
      (hother : Other c q s op)
      (hprivate : ∀ call, s.call = some call → opMessage op ≠ some call.waiterDoneMsg) :
      Step c q s (.other op) { s with
        kernel := k
        others := s.others ++ (k.sent q).drop (s.kernel.sent q).length }

/-! ## A queue and the task that waits on it -/

/-- The kernel is in order for the task `c`, which waits on the queue `q` only
and is the only one that does. -/
structure KernelOk (c q : Nat) (k : State) : Prop where
  task : ((k.queues q).waiting = [] ∧ k.tasks c = .running) ∨
    ((k.queues q).waiting = [c] ∧ k.tasks c = .waiting q ∧ (k.queues q).messages = [])
  elsewhere : ∀ q', q' ≠ q → c ∉ (k.queues q').waiting
  names : ∀ q', ∀ mp ∈ (k.queues q').messages ++ (k.queues q').responses, mp.task ≠ .task c

/-- The message `d` is in no other queue and nobody is about to post it, and it
is one of user space. -/
structure Away (d q : Nat) (k : State) : Prop where
  messages : ∀ q', q' ≠ q → d ∉ (k.queues q').messages.map MessagePending.key
  responding : ∀ t q', k.tasks t ≠ .responding d q'
  type : (k.msgs d).type < MSG_FIRST_SYS_TYPE

/-- What a task sees of a queue on which it waits: the messages in the list,
oldest first, the last message delivered, whether the task waits, and what was
sent. -/
structure View where
  queued : List Nat
  last : Option Nat
  waits : Bool
  sent : List Nat
  deriving DecidableEq, Repr

/-- The view of the task `c` of the queue `q`. -/
def view (c q : Nat) (k : State) : View where
  queued := (k.queues q).messages.reverse.map MessagePending.key
  last := ((k.delivered q).getLast?).map Prod.fst
  waits := decide (k.tasks c ≠ .running)
  sent := k.sent q

attribute [grind =] view

/-- A message is handed to the queue. -/
def View.hand (v : View) (m : Nat) : View :=
  if v.waits then { v with last := some m, waits := false, sent := v.sent ++ [m] }
  else { v with queued := v.queued ++ [m], sent := v.sent ++ [m] }

attribute [grind =] View.hand

variable {c q d : Nat} {k : State}

theorem KernelOk.congr {k' : State} (h : KernelOk c q k)
    (hmessages : ∀ q', (k'.queues q').messages = (k.queues q').messages)
    (hwaiting : ∀ q', (k'.queues q').waiting = (k.queues q').waiting)
    (hresponses : ∀ q', ∀ mp ∈ (k'.queues q').responses, mp ∈ (k.queues q').responses)
    (htask : k'.tasks c = k.tasks c) : KernelOk c q k' := by
  refine ⟨?_, fun q' hne => ?_, fun q' mp hmem => ?_⟩
  · rw [hwaiting, hmessages, htask]
    exact h.task
  · rw [hwaiting]
    exact h.elsewhere q' hne
  · refine h.names q' mp ?_
    rw [mem_append] at hmem ⊢
    rcases hmem with hmem | hmem
    · exact Or.inl (hmessages q' ▸ hmem)
    · exact Or.inr (hresponses q' mp hmem)

variable {mp : MessagePending} {q' m t w : Nat} {s : Sys} {call : Call}

theorem KernelOk.names_update {mq : MessageQueue} (h : KernelOk c q k) (hmp : mp.task ≠ .task c)
    (hsub : ∀ x ∈ mq.messages ++ mq.responses, x = mp ∨ x ∈ (k.queues q').messages ++ (k.queues
      q').responses) (q'' : Nat) :
    ∀ x ∈ (update k.queues q' mq q'').messages
      ++ (update k.queues q' mq q'').responses, x.task ≠ .task c := by
  intro x hx
  by_cases hne : q'' = q'
  · subst hne
    rw [update_self] at hx
    rcases hsub x hx with rfl | hold
    · exact hmp
    · exact h.names q'' x hold
  · rw [update_of_ne hne] at hx
    exact h.names q'' x hx

/-- A message handed to a queue keeps the order, and the caller sees it when it
is its own queue. -/
theorem KernelOk.hand (h : KernelOk c q k) (hmp : mp.task ≠ .task c) (q' : Nat) (keep : Bool) :
    KernelOk c q (k.hand q' mp keep) ∧
    view c q (k.hand q' mp keep) = if q' = q then (view c q k).hand mp.key else view c q k := by
  rcases k.hand_cases q' mp keep with ⟨hwaiting, heq⟩ | ⟨rest, w, hwaiting, heq⟩
  · rw [heq]
    refine ⟨⟨?_, fun q'' hne => ?_, ?_⟩, ?_⟩
    · by_cases hq : q' = q
      · subst hq
        have hrun : k.tasks c = .running := by
          rcases h.task with ⟨-, hrun⟩ | ⟨hno, -⟩
          · exact hrun
          · exact absurd (hwaiting.symm.trans hno) (by simp)
        exact Or.inl ⟨by simpa [State.enqueue] using hwaiting, hrun⟩
      · have hne : q ≠ q' := fun heq => hq heq.symm
        simpa [State.enqueue, update_of_ne hne] using h.task
    · by_cases hq : q'' = q'
      · subst hq
        simpa [State.enqueue] using h.elsewhere q'' hne
      · simpa [State.enqueue, update_of_ne hq] using h.elsewhere q'' hne
    · refine h.names_update hmp fun x hx => ?_
      simpa [Queue.insert, or_assoc] using hx
    · by_cases hq : q' = q
      · subst hq
        have hrun : k.tasks c = .running := by
          rcases h.task with ⟨-, hrun⟩ | ⟨hno, -⟩
          · exact hrun
          · exact absurd (hwaiting.symm.trans hno) (by simp)
        simp [view, View.hand, State.enqueue, Queue.insert, hrun]
      · have hne : q ≠ q' := fun heq => hq heq.symm
        rw [if_neg hq]
        simp only [view, State.enqueue, update_of_ne hne]
        rfl
  · rw [heq]
    have hnames : ∀ q'' : Nat, ∀ x ∈ (update k.queues q'
        { k.queues q' with
          responses :=
            if keep then Queue.insert (k.queues q').responses mp else (k.queues q').responses
          waiting := rest } q'').messages
        ++ (update k.queues q'
        { k.queues q' with
          responses :=
            if keep then Queue.insert (k.queues q').responses mp else (k.queues q').responses
          waiting := rest } q'').responses, x.task ≠ .task c := by
      refine h.names_update hmp fun x hx => ?_
      rw [mem_append] at hx ⊢
      rcases hx with hx | hx
      · exact Or.inr (Or.inl hx)
      · cases keep
        · exact Or.inr (Or.inr hx)
        · rcases mem_cons.mp hx with rfl | hx
          · exact Or.inl rfl
          · exact Or.inr (Or.inr hx)
    by_cases hq : q' = q
    · subst hq
      obtain ⟨hw, htask, hmessages⟩ : (k.queues q').waiting = [c] ∧ k.tasks c = .waiting q' ∧
          (k.queues q').messages = [] := by
        rcases h.task with ⟨hno, -⟩ | hwait
        · exact absurd (hwaiting.symm.trans hno) (by simp)
        · exact hwait
      obtain ⟨rfl, rfl⟩ : rest = [] ∧ w = c := by
        rw [hw] at hwaiting
        cases rest with
        | nil => exact ⟨rfl, (List.cons.inj hwaiting).1.symm⟩
        | cons x rest => simp at hwaiting
      refine ⟨⟨Or.inl ⟨by simp [State.handOver], by simp [State.handOver]⟩,
        fun q'' hne => ?_, hnames⟩, ?_⟩
      · simpa [State.handOver, update_of_ne hne] using h.elsewhere q'' hne
      · simp [view, View.hand, State.handOver, htask]
    · have hne : q ≠ q' := fun heq => hq heq.symm
      have hcw : c ≠ w := by
        rintro rfl
        exact h.elsewhere q' hq (by simp [hwaiting])
      refine ⟨⟨?_, fun q'' hne' => ?_, hnames⟩, ?_⟩
      · simpa [State.handOver, update_of_ne hne, update_of_ne hcw] using h.task
      · by_cases hq'' : q'' = q'
        · subst hq''
          have hold := h.elsewhere q'' hq
          rw [hwaiting] at hold
          simpa [State.handOver] using fun hmem => hold (mem_append_left _ hmem)
        · simpa [State.handOver, update_of_ne hq''] using h.elsewhere q'' hne'
      · simp [view, State.handOver, update_of_ne hne, update_of_ne hcw, hq]

theorem Away.hand (h : Away d q k) (q' : Nat) (keep : Bool) (hmp : mp.key = d → q' = q) :
    Away d q (k.hand q' mp keep) := by
  rcases k.hand_cases q' mp keep with ⟨-, heq⟩ | ⟨rest, w, -, heq⟩
  · rw [heq]
    refine ⟨fun q'' hne => ?_, h.responding, h.type⟩
    by_cases hq : q'' = q'
    · subst hq
      have hkey : d ≠ mp.key := fun heq => hne (hmp heq.symm)
      simpa [State.enqueue, Queue.insert, hkey] using h.messages q'' hne
    · simpa [State.enqueue, update_of_ne hq] using h.messages q'' hne
  · rw [heq]
    refine ⟨fun q'' hne => ?_, fun t q'' => ?_, h.type⟩
    · by_cases hq : q'' = q'
      · subst hq
        simpa [State.handOver] using h.messages q'' hne
      · simpa [State.handOver, update_of_ne hq] using h.messages q'' hne
    · by_cases ht : t = w
      · subst ht
        simp [State.handOver]
      · simpa [State.handOver, update_of_ne ht] using h.responding t q''

/-! ## The steps of the other tasks -/

/-- Nothing that matters to the queue changes.  `P` says which messages are
private to a caller. -/
structure Same (c q : Nat) (P : Nat → Prop) (k k' : State) : Prop where
  kernel : KernelOk c q k'
  view : view c q k' = view c q k
  away : ∀ d, P d → Away d q k'

/-- One message is handed to the queue, and it is not a private one, or nothing
changes. -/
structure Keeps (c q : Nat) (P : Nat → Prop) (k k' : State) : Prop where
  kernel : KernelOk c q k'
  view : view c q k' = view c q k ∨
    ∃ m, view c q k' = (view c q k).hand m ∧ ∀ d, P d → m ≠ d
  away : ∀ d, P d → Away d q k'

variable {P : Nat → Prop} {k' k'' : State}

theorem Same.keeps (h : Same c q P k k') : Keeps c q P k k' := ⟨h.kernel, Or.inl h.view, h.away⟩

theorem Same.refl (h : KernelOk c q k) (haway : ∀ d, P d → Away d q k) : Same c q P k k :=
  ⟨h, rfl, haway⟩

theorem Same.hand (h : Same c q P k k') (hmp : mp.task ≠ .task c) (hkey : ∀ d, P d → mp.key ≠ d)
    (q' : Nat) (keep : Bool) :
    Keeps c q P k (k'.hand q' mp keep) := by
  obtain ⟨hkernel, hview⟩ := h.kernel.hand hmp q' keep
  refine ⟨hkernel, ?_, fun d hd => (h.away d hd).hand q' keep fun heq => absurd heq (hkey d hd)⟩
  rw [hview, h.view]
  split_ifs with hq
  · exact Or.inr ⟨mp.key, rfl, hkey⟩
  · exact Or.inl rfl

theorem Same.setMsg (h : Same c q P k k') (hm : ∀ d, P d → m ≠ d) (msg : Message) :
    Same c q P k (k'.setMsg m msg) := by
  refine ⟨h.kernel.congr (fun _ => rfl) (fun _ => rfl) (fun _ _ => id) rfl, h.view,
    fun d hd => ⟨(h.away d hd).messages, (h.away d hd).responding, ?_⟩⟩
  show (update k'.msgs m msg d).type < MSG_FIRST_SYS_TYPE
  rw [update_of_ne (hm d hd).symm]
  exact (h.away d hd).type

theorem Same.congr (h : Same c q P k k') (hmsgs : k''.msgs = k'.msgs)
    (hqueues : k''.queues = k'.queues) (htasks : k''.tasks = k'.tasks)
    (hdelivered : k''.delivered = k'.delivered) (hsent : k''.sent = k'.sent) :
    Same c q P k k'' := by
  refine ⟨h.kernel.congr (fun _ => by rw [hqueues]) (fun _ => by rw [hqueues])
    (fun _ _ hmem => by rwa [hqueues] at hmem) (by rw [htasks]), ?_, fun d hd => ⟨?_, ?_, ?_⟩⟩
  · rw [← h.view, Timeout.view, Timeout.view, hqueues, htasks, hdelivered, hsent]
  · rw [hqueues]
    exact (h.away d hd).messages
  · rw [htasks]
    exact (h.away d hd).responding
  · rw [hmsgs]
    exact (h.away d hd).type

theorem Same.setTask (h : Same c q P k k') (ht : t ≠ c) {state : TaskState}
    (hstate : ∀ d q', P d → state ≠ .responding d q') : Same c q P k (k'.setTask t state) := by
  have htask : (k'.setTask t state).tasks c = k'.tasks c := update_of_ne ht.symm _ _
  refine ⟨h.kernel.congr (fun _ => rfl) (fun _ => rfl) (fun _ _ => id) htask, ?_, fun d hd =>
    ⟨(h.away d hd).messages, fun t' q' => ?_, (h.away d hd).type⟩⟩
  · rw [← h.view, Timeout.view, Timeout.view, htask]
    rfl
  · show update k'.tasks t state t' ≠ .responding d q'
    by_cases hne : t' = t
    · subst hne
      rw [update_self]
      exact hstate d q' hd
    · rw [update_of_ne hne]
      exact (h.away d hd).responding t' q'

theorem Same.eraseResponse (h : Same c q P k k') (q' : Nat) (mp : MessagePending) :
    Same c q P k (k'.setQueue q' { k'.queues q' with
      responses := (k'.queues q').responses.erase mp }) := by
  have hqueue : ∀ q'', (update k'.queues q' { k'.queues q' with
      responses := (k'.queues q').responses.erase mp } q'').messages = (k'.queues q'').messages ∧
      (update k'.queues q' { k'.queues q' with
      responses := (k'.queues q').responses.erase mp } q'').waiting = (k'.queues q'').waiting ∧
      ∀ x ∈ (update k'.queues q' { k'.queues q' with
      responses := (k'.queues q').responses.erase mp } q'').responses,
        x ∈ (k'.queues q'').responses := by
    intro q''
    by_cases hne : q'' = q'
    · subst hne
      rw [update_self]
      exact ⟨rfl, rfl, fun x hx => mem_of_mem_erase hx⟩
    · rw [update_of_ne hne]
      exact ⟨rfl, rfl, fun x hx => hx⟩
  refine ⟨h.kernel.congr (fun q'' => (hqueue q'').1) (fun q'' => (hqueue q'').2.1)
    (fun q'' => (hqueue q'').2.2) rfl, ?_, fun d hd => ⟨fun q'' hne => ?_,
      (h.away d hd).responding, (h.away d hd).type⟩⟩
  · rw [← h.view]
    show View.mk (((update k'.queues q' _ q).messages.reverse).map _) _ _ _ = _
    rw [(hqueue q).1]
    rfl
  · show d ∉ (update k'.queues q' _ q'').messages.map _
    rw [(hqueue q'').1]
    exact (h.away d hd).messages q'' hne

theorem Same.msgWait (h : Same c q P k k') (ht : t ≠ c) (hq : q' ≠ q) :
    Same c q P k (k'.msgWait t q') := by
  have hview : ∀ k'' : State, k''.queues q = k'.queues q → k''.tasks c = k'.tasks c →
      k''.delivered q = k'.delivered q → k''.sent q = k'.sent q →
        Timeout.view c q k'' = Timeout.view c q k := by
    intro k'' h1 h2 h3 h4
    rw [← h.view, Timeout.view, Timeout.view, h1, h2, h3, h4]
  have hnames := h.kernel.names
  rcases k'.msgWait_cases t q' with ⟨hmessages, heq⟩ | ⟨rest, mp, hmessages, heq⟩
  · rw [heq]
    refine ⟨⟨?_, fun q'' hne => ?_, fun q'' => ?_⟩, ?_, fun d hd => ⟨fun q'' hne => ?_,
      fun t' q'' => ?_, (h.away d hd).type⟩⟩
    · simpa [State.await, update_of_ne hq.symm, update_of_ne ht.symm]
        using h.kernel.task
    · by_cases hq' : q'' = q'
      · subst hq'
        simpa [State.await, Queue.insert, ht.symm] using h.kernel.elsewhere q'' hne
      · simpa [State.await, update_of_ne hq'] using h.kernel.elsewhere q'' hne
    · by_cases hq' : q'' = q'
      · subst hq'
        simpa [State.await] using hnames q''
      · simpa [State.await, update_of_ne hq'] using hnames q''
    · exact hview _ (update_of_ne hq.symm _ _) (update_of_ne ht.symm _ _) rfl rfl
    · by_cases hq' : q'' = q'
      · subst hq'
        simp [State.await, hmessages]
      · simpa [State.await, update_of_ne hq'] using (h.away d hd).messages q'' hne
    · by_cases ht' : t' = t
      · subst ht'
        simp [State.await]
      · simpa [State.await, update_of_ne ht'] using (h.away d hd).responding t' q''
  · rw [heq]
    refine ⟨⟨?_, fun q'' hne => ?_, fun q'' x hx => ?_⟩, ?_, fun d hd => ⟨fun q'' hne => ?_,
      (h.away d hd).responding, (h.away d hd).type⟩⟩
    · simpa [State.receive, update_of_ne hq.symm] using h.kernel.task
    · by_cases hq' : q'' = q'
      · subst hq'
        simpa [State.receive] using h.kernel.elsewhere q'' hne
      · simpa [State.receive, update_of_ne hq'] using h.kernel.elsewhere q'' hne
    · by_cases hq' : q'' = q'
      · subst hq'
        refine hnames q'' x ?_
        simp only [State.receive, update_self, hmessages, mem_append] at hx ⊢
        cases hasync : (k'.msgs mp.key).async
        · rw [hasync] at hx
          tauto
        · rw [hasync] at hx
          simp only [if_true, Queue.insert, mem_cons] at hx
          simp only [mem_singleton]
          tauto
      · refine hnames q'' x ?_
        simpa [State.receive, update_of_ne hq'] using hx
    · exact hview _ (update_of_ne hq.symm _ _) rfl (update_of_ne hq.symm _ _) rfl
    · by_cases hq' : q'' = q'
      · subst hq'
        have hold := (h.away d hd).messages q'' hne
        rw [hmessages] at hold
        simp only [map_append, mem_append, not_or] at hold
        simpa [State.receive] using hold.1
      · simpa [State.receive, update_of_ne hq'] using (h.away d hd).messages q'' hne

theorem Same.msgSend (h : Same c q P k k') (ht : t ≠ c) (hm : ∀ d, P d → m ≠ d) (q' : Nat) :
    Keeps c q P k (k'.msgSend t q' m) := by
  have hset := h.setMsg hm { k'.msgs m with async := false }
  unfold State.msgSend
  dsimp only
  split_ifs
  · exact hset.keeps
  · exact hset.hand (by simpa using ht) hm q' false

theorem Same.msgSendRecv (h : Same c q P k k') (ht : t ≠ c) (hm : ∀ d, P d → m ≠ d) (q' : Nat)
    (mq2 : Option Nat) : Keeps c q P k (k'.msgSendRecv t q' m mq2) := by
  by_cases htype : (k'.msgs m).type < MSG_FIRST_SYS_TYPE
  · cases mq2 with
    | some q2 =>
      rw [State.msgSendRecv_noblk t q' q2 htype]
      exact (h.setMsg hm _).hand (by simp) hm q' true
    | none =>
      have hcall : Same c q P k ((k'.setMsg m { k'.msgs m with async := true }).call t q' m) :=
        (h.setMsg hm _).congr rfl rfl rfl rfl rfl
      cases hpseudo : (k'.msgs m).pseudosync with
      | true =>
        rw [State.msgSendRecv_pseudo t q' htype hpseudo]
        exact hcall.hand (by simp) hm q' true
      | false =>
        rw [State.msgSendRecv_sync t q' htype hpseudo]
        exact (hcall.setTask ht (by simp)).hand (by simpa using ht) hm q' true
  · rw [State.msgSendRecv_rejected t q' mq2 htype]
    exact (h.setMsg hm _).keeps

theorem Same.msgRespond (h : Same c q P k k') {s : State}
    (ht : t ≠ c ∨ (k'.msgs m).pseudosync = false) (hm : ∀ d, P d → m ≠ d)
    (hrespond : k'.msgRespond t q' m = some s) : Same c q P k s := by
  unfold State.msgRespond at hrespond
  dsimp only at hrespond
  split at hrespond
  · rw [Option.some.injEq] at hrespond
    exact hrespond ▸ h
  · rename_i mp hfind
    have hset := h.eraseResponse q' mp
    have hname : mp.task ≠ .task c :=
      h.kernel.names q' mp (mem_append_right _ (mem_of_find?_eq_some hfind))
    split_ifs at hrespond with htype hpseudo
    · split at hrespond
      · rename_i q2 hq2
        have hne : t ≠ c := by
          rcases ht with hne | hno
          · exact hne
          · exact absurd (hpseudo.symm.trans hno) (by simp)
        rw [Option.some.injEq] at hrespond
        rw [← hrespond]
        refine (hset.setTask hne fun d q'' hd heq => ?_).congr rfl rfl rfl rfl rfl
        exact hm d hd (TaskState.responding.inj heq).1
      · exact absurd hrespond (by simp)
    · split at hrespond
      · rename_i w hw
        have hne : w ≠ c := by
          rintro rfl
          exact hname hw
        rw [Option.some.injEq] at hrespond
        rw [← hrespond]
        exact (hset.setTask hne fun _ _ _ => by simp).congr rfl rfl rfl rfl rfl
      · exact absurd hrespond (by simp)

theorem Same.postResponse (h : Same c q P k k') {s : State} (ht : t ≠ c)
    (hpost : k'.postResponse t = some s) : Keeps c q P k s := by
  unfold State.postResponse at hpost
  split at hpost
  · rename_i m q2 htask
    rw [Option.some.injEq] at hpost
    rw [← hpost]
    refine (h.setTask ht fun _ _ _ => by simp).hand (by simpa using ht) (fun d hd heq => ?_) q2 false
    subst heq
    exact (h.away m hd).responding t q2 htask
  · exact absurd hpost (by simp)

/-- A system call of another task, which does not wait on the queue and does
not name a private message, hands at most one message to the queue. -/
theorem KernelOk.exec {op : Op} (h : KernelOk c q k) (hexec : k.exec op = some k')
    (hother : opTask op ≠ some c ∨
      ∃ q' m, op = .respond c q' m ∧ (k.msgs m).pseudosync = false)
    (hwait : ∀ t, op ≠ .wait t q) (hP : ∀ d, P d → Away d q k ∧ opMessage op ≠ some d) :
    Keeps c q P k k' := by
  have hsame : Same c q P k k := Same.refl h fun d hd => (hP d hd).1
  have htask : ∀ t, opTask op = some t → t ≠ c ∨
      ∃ q' m, op = .respond c q' m ∧ (k.msgs m).pseudosync = false := by
    intro t ht
    refine hother.imp_left fun hne heq => ?_
    exact hne (heq ▸ ht)
  have hname : ∀ m, opMessage op = some m → ∀ d, P d → m ≠ d := by
    intro m hm d hd heq
    exact (hP d hd).2 (heq ▸ hm)
  cases op with
  | send t q' m =>
    rw [State.exec, Option.some.injEq] at hexec
    rw [← hexec]
    exact hsame.msgSend ((htask t rfl).resolve_right (by simp)) (hname m rfl) q'
  | sendrecv t q' m =>
    rw [State.exec, Option.some.injEq] at hexec
    rw [← hexec]
    exact hsame.msgSendRecv ((htask t rfl).resolve_right (by simp)) (hname m rfl) q' none
  | sendrecvNoblk t q' m q2 =>
    rw [State.exec, Option.some.injEq] at hexec
    rw [← hexec]
    exact hsame.msgSendRecv ((htask t rfl).resolve_right (by simp)) (hname m rfl) q' (some q2)
  | wait t q' =>
    rw [State.exec, Option.some.injEq] at hexec
    rw [← hexec]
    refine (hsame.msgWait ((htask t rfl).resolve_right (by simp)) ?_).keeps
    rintro rfl
    exact hwait t rfl
  | respond t q' m =>
    refine (hsame.msgRespond ?_ (hname m rfl) hexec).keeps
    refine (htask t rfl).imp_right ?_
    rintro ⟨q'', m', heq, hpseudo⟩
    rw [Op.respond.injEq] at heq
    exact heq.2.2 ▸ hpseudo
  | post t => exact hsame.postResponse ((htask t rfl).resolve_right (by simp)) hexec
  | allocate m type =>
    rw [State.exec, Option.some.injEq] at hexec
    rw [← hexec]
    exact (hsame.setMsg (hname m rfl) _).keeps
  | setType m type =>
    rw [State.exec, Option.some.injEq] at hexec
    rw [← hexec]
    exact (hsame.setMsg (hname m rfl) _).keeps

/-! ## What the caller has still to take -/

/-- The message that a `msg_wait` which is about to return got, and the messages
in the list, oldest first. -/
def View.pending (v : View) (inWait : Bool) : List Nat :=
  (if inWait && !v.waits then v.last.toList else []) ++ v.queued

attribute [grind =] View.pending

theorem View.hand_sent (v : View) (m : Nat) : (v.hand m).sent = v.sent ++ [m] := by
  unfold View.hand
  split_ifs <;> rfl

theorem KernelOk.pending_hand (h : KernelOk c q k) {inWait : Bool}
    (houtside : inWait = false → k.tasks c = .running) (m : Nat) :
    ((view c q k).hand m).pending inWait = (view c q k).pending inWait ++ [m] := by
  rcases h.task with ⟨-, hrun⟩ | ⟨-, htask, hmessages⟩
  · simp [View.hand, View.pending, view, hrun]
  · cases inWait with
    | false => exact absurd (htask.symm.trans (houtside rfl)) (by simp)
    | true => simp [View.hand, View.pending, view, htask, hmessages]

theorem KernelOk.msgWait (h : KernelOk c q k) (hrun : k.tasks c = .running) :
    KernelOk c q (k.msgWait c q) ∧
    (view c q (k.msgWait c q)).pending true = (view c q k).pending false := by
  have hnone : (k.queues q).waiting = [] := by
    rcases h.task with ⟨hnone, -⟩ | ⟨-, hwait, -⟩
    · exact hnone
    · exact absurd (hwait.symm.trans hrun) (by simp)
  rcases k.msgWait_cases c q with ⟨hmessages, heq⟩ | ⟨rest, mp, hmessages, heq⟩
  · rw [heq]
    refine ⟨⟨Or.inr ⟨?_, ?_, ?_⟩, fun q' hne => ?_, fun q' => ?_⟩, ?_⟩
    · simp [State.await, Queue.insert, hnone]
    · simp [State.await]
    · simpa [State.await] using hmessages
    · simpa [State.await, update_of_ne hne] using h.elsewhere q' hne
    · by_cases hne : q' = q
      · subst hne
        simpa [State.await] using h.names q'
      · simpa [State.await, update_of_ne hne] using h.names q'
    · simp [View.pending, view, State.await, hmessages]
  · rw [heq]
    refine ⟨⟨Or.inl ⟨?_, hrun⟩, fun q' hne => ?_, fun q' x hx => ?_⟩, ?_⟩
    · simpa [State.receive] using hnone
    · simpa [State.receive, update_of_ne hne] using h.elsewhere q' hne
    · refine h.names q' x ?_
      by_cases hne : q' = q
      · subst hne
        simp only [State.receive, update_self, hmessages, mem_append] at hx ⊢
        cases hasync : (k.msgs mp.key).async
        · rw [hasync] at hx
          tauto
        · rw [hasync] at hx
          simp only [if_true, Queue.insert, mem_cons] at hx
          simp only [mem_singleton]
          tauto
      · simpa [State.receive, update_of_ne hne] using hx
    · simp [View.pending, view, State.receive, hmessages, hrun]

theorem Away.msgWait (h : Away d q k) (c : Nat) : Away d q (k.msgWait c q) := by
  rcases k.msgWait_cases c q with ⟨-, heq⟩ | ⟨rest, mp, -, heq⟩
  · rw [heq]
    refine ⟨fun q' hne => ?_, fun t q' => ?_, h.type⟩
    · simpa [State.await, update_of_ne hne] using h.messages q' hne
    · by_cases ht : t = c
      · subst ht
        simp [State.await]
      · simpa [State.await, update_of_ne ht] using h.responding t q'
  · rw [heq]
    refine ⟨fun q' hne => ?_, h.responding, h.type⟩
    simpa [State.receive, update_of_ne hne] using h.messages q' hne

theorem pending_receive {msg : Nat} (hrun : k.tasks c = .running)
    (hmsg : (k.delivered q).getLast? = some (msg, c)) :
    (view c q k).pending true = msg :: (view c q k).pending false := by
  simp [View.pending, view, hrun, hmsg]

theorem KernelOk.sendDone (h : KernelOk c q k) (haway : Away d q k) (hw : w ≠ c) :
    KernelOk c q (k.msgSend w q d) ∧ Away d q (k.msgSend w q d) ∧
    view c q (k.msgSend w q d) = (view c q k).hand d := by
  have htype : ((k.setMsg d { k.msgs d with async := false }).msgs d).type < MSG_FIRST_SYS_TYPE := by
    simpa using haway.type
  have hset : KernelOk c q (k.setMsg d { k.msgs d with async := false }) :=
    h.congr (fun _ => rfl) (fun _ => rfl) (fun _ _ => id) rfl
  have haway' : Away d q (k.setMsg d { k.msgs d with async := false }) :=
    ⟨haway.messages, haway.responding, htype⟩
  have hsend : k.msgSend w q d
      = (k.setMsg d { k.msgs d with async := false }).hand q ⟨d, .task w, false⟩ false :=
    if_neg (Nat.not_le.mpr htype)
  obtain ⟨hkernel, hview⟩ := @KernelOk.hand _ _ _ ⟨d, .task w, false⟩ hset (by simpa using hw) q false
  rw [hsend]
  refine ⟨hkernel, haway'.hand q false fun _ => rfl, ?_⟩
  rw [hview, if_pos rfl]
  rfl

/-! ## The account -/

/-- What a call in progress has in its results. -/
def Sys.results (s : Sys) : List Nat := s.call.elim [] Call.results

attribute [grind =] Sys.results

/-- The messages of the other tasks that wait in the queue, or are on their way
to the caller. -/
def Sys.queued (c q : Nat) (s : Sys) : List Nat :=
  match s.call with
  | none => (view c q s.kernel).pending false
  | some call => ((view c q s.kernel).pending call.inWait).filter (· ≠ call.waiterDoneMsg)

attribute [grind =] Sys.queued

/-- What the other tasks sent is what the finished calls returned, what the
present call has so far, and what is queued, in this order. -/
def Accounted (c q : Nat) (s : Sys) : Prop :=
  s.others = s.returned ++ s.results ++ s.queued c q

attribute [grind =] Accounted

/-- A call in progress.  Its own message is to be taken once when the helper task
sent it, and never before. -/
structure CallOk (c q : Nat) (k : State) (call : Call) : Prop where
  waiter : call.waiter ≠ c
  away : Away call.waiterDoneMsg q k
  outside : call.inWait = false → k.tasks c = .running
  once : ((view c q k).pending call.inWait).count call.waiterDoneMsg
    = if call.timer = .finished then 1 else 0

/-- The invariant. -/
structure Ok (c q : Nat) (s : Sys) : Prop where
  kernel : KernelOk c q s.kernel
  idle : s.call = none → s.kernel.tasks c = .running
  busy : ∀ call, s.call = some call → CallOk c q s.kernel call
  account : Accounted c q s

theorem Ok.init (msgs : Nat → Message) : Ok c q (Sys.init msgs) := by
  refine ⟨⟨Or.inl ⟨rfl, rfl⟩, fun q' _ => ?_, fun q' mp hmem => ?_⟩, fun _ => rfl, ?_, rfl⟩
  · simp [Sys.init, State.init]
  · simp [Sys.init, State.init] at hmem
  · intro call hcall
    simp [Sys.init] at hcall

theorem CallOk.start (hrun : s.kernel.tasks c = .running) (hw : w ≠ c) (hunused : Unused s.kernel d)
    (ms : Int) :
    CallOk c q (s.kernel.setMsg d ⟨0, false, false⟩)
      ⟨d, w, .polling ms, false, [], false⟩ := by
  have hnot : d ∉ (view c q s.kernel).queued := by
    simpa [view] using hunused.1 q
  refine ⟨hw, ⟨fun q' _ => hunused.1 q', hunused.2, ?_⟩, fun _ => hrun, ?_⟩
  · simp [MSG_FIRST_SYS_TYPE]
  · show ((view c q s.kernel).pending false).count d = 0
    rw [count_eq_zero]
    simpa [View.pending] using hnot

theorem Ok.start (h : Ok c q s) (hidle : s.call = none) (hw : w ≠ c) (hunused : Unused s.kernel d)
    (ms : Int) :
    Ok c q { s with
      kernel := s.kernel.setMsg d ⟨0, false, false⟩
      call := some ⟨d, w, .polling ms, false, [], false⟩ } := by
  have hrun := h.idle hidle
  have hcall := CallOk.start (q := q) hrun hw hunused ms
  refine ⟨h.kernel.congr (fun _ => rfl) (fun _ => rfl) (fun _ _ => id) rfl, by simp, ?_, ?_⟩
  · rintro call ⟨⟩
    exact hcall
  · have hold := h.account
    have hnot : ∀ m ∈ (view c q s.kernel).pending false, m ≠ d := by
      intro m hm heq
      subst heq
      have hzero : ((view c q s.kernel).pending false).count m = 0 := hcall.once
      exact count_eq_zero.mp hzero hm
    rw [Accounted, Sys.results, Sys.queued, hidle] at hold
    show s.others = s.returned ++ [] ++ ((view c q s.kernel).pending false).filter (· ≠ d)
    rw [filter_eq_self.mpr (by simpa using hnot)]
    exact hold

theorem Ok.wait (h : Ok c q s) (hcall : s.call = some call) (hwait : call.inWait = false) :
    Ok c q { s with
      kernel := s.kernel.msgWait c q
      call := some { call with inWait := true } } := by
  obtain ⟨hw, haway, houtside, honce⟩ := h.busy call hcall
  obtain ⟨hkernel, hpending⟩ := h.kernel.msgWait (houtside hwait)
  rw [hwait, ← hpending] at honce
  refine ⟨hkernel, by simp, ?_, ?_⟩
  · rintro call' ⟨⟩
    exact ⟨hw, haway.msgWait c, by simp, honce⟩
  · have hold := h.account
    rw [Accounted, Sys.results, Sys.queued, hcall] at hold
    dsimp only at hold
    rw [hwait, ← hpending] at hold
    exact hold

theorem Ok.accumulate (h : Ok c q s) {msg : Nat} (hcall : s.call = some call)
    (hwait : call.inWait = true) (hrun : s.kernel.tasks c = .running)
    (hmsg : (s.kernel.delivered q).getLast? = some (msg, c)) (hne : msg ≠ call.waiterDoneMsg) :
    Ok c q { s with
      call := some { call with
        results := call.results ++ [msg]
        done := true
        inWait := false } } := by
  obtain ⟨hw, haway, -, honce⟩ := h.busy call hcall
  have hpending := pending_receive (q := q) hrun hmsg
  rw [hwait, hpending, count_cons_of_ne hne] at honce
  refine ⟨h.kernel, by simp, ?_, ?_⟩
  · rintro call' ⟨⟩
    exact ⟨hw, haway, fun _ => hrun, honce⟩
  · have hold := h.account
    rw [Accounted, Sys.results, Sys.queued, hcall] at hold
    dsimp only at hold
    rw [hwait, hpending, filter_cons_of_pos (by simpa using hne)] at hold
    show s.others = s.returned ++ (call.results ++ [msg])
      ++ ((view c q s.kernel).pending false).filter (· ≠ call.waiterDoneMsg)
    rw [hold]
    simp [Option.elim]

/-- When the caller takes its own message, the helper task is finished and the
message is nowhere. -/
theorem Ok.taken (h : Ok c q s) (hcall : s.call = some call) (hwait : call.inWait = true)
    (hrun : s.kernel.tasks c = .running)
    (hmsg : (s.kernel.delivered q).getLast? = some (call.waiterDoneMsg, c)) :
    call.timer = .finished ∧ Unused s.kernel call.waiterDoneMsg := by
  obtain ⟨-, haway, -, honce⟩ := h.busy call hcall
  rw [hwait, pending_receive (q := q) hrun hmsg, count_cons_self] at honce
  have hfinished : call.timer = .finished := by
    by_contra hno
    rw [if_neg hno] at honce
    exact absurd honce (by simp)
  rw [if_pos hfinished, Nat.add_eq_right, count_eq_zero] at honce
  refine ⟨hfinished, fun q' => ?_, haway.responding⟩
  by_cases hne : q' = q
  · subst hne
    simpa [View.pending, view] using honce
  · exact haway.messages q' hne

theorem Ok.done (h : Ok c q s) (hcall : s.call = some call) (hwait : call.inWait = true)
    (hrun : s.kernel.tasks c = .running)
    (hmsg : (s.kernel.delivered q).getLast? = some (call.waiterDoneMsg, c)) :
    Ok c q { s with call := none, returned := s.returned ++ call.results } := by
  obtain ⟨-, hunused⟩ := h.taken hcall hwait hrun hmsg
  refine ⟨h.kernel, fun _ => hrun, by simp, ?_⟩
  have hold := h.account
  have hnot : ∀ m ∈ (view c q s.kernel).pending false, m ≠ call.waiterDoneMsg := by
    intro m hm heq
    refine hunused.1 q ?_
    simpa [View.pending, view, heq] using hm
  rw [Accounted, Sys.results, Sys.queued, hcall] at hold
  dsimp only at hold
  rw [hwait, pending_receive (q := q) hrun hmsg, filter_cons_of_neg (by simp),
    filter_eq_self.mpr (by simpa using hnot)] at hold
  show s.others = s.returned ++ call.results ++ [] ++ (view c q s.kernel).pending false
  rw [append_nil]
  exact hold

theorem Timer.poll_ne_finished (done : Bool) (ms : Int) :
    (Timer.polling ms).poll done ≠ .finished := by
  unfold Timer.poll
  dsimp only
  split_ifs <;> simp

theorem Ok.poll (h : Ok c q s) {ms : Int} (hcall : s.call = some call)
    (htimer : call.timer = .polling ms) :
    Ok c q { s with call := some { call with timer := call.timer.poll call.done } } := by
  obtain ⟨hw, haway, houtside, honce⟩ := h.busy call hcall
  refine ⟨h.kernel, by simp, ?_, ?_⟩
  · rintro call' ⟨⟩
    refine ⟨hw, haway, houtside, ?_⟩
    rw [if_neg (by simp [htimer])] at honce
    show _ = if call.timer.poll call.done = .finished then 1 else 0
    rw [htimer, if_neg (Timer.poll_ne_finished call.done ms)]
    exact honce
  · have hold := h.account
    rw [Accounted, Sys.results, Sys.queued, hcall] at hold
    exact hold

theorem KernelOk.running_of_view (hrun : k.tasks c = .running)
    (hview : view c q k' = view c q k ∨ view c q k' = (view c q k).hand m) :
    k'.tasks c = .running := by
  have hwaits : (view c q k').waits = false := by
    rcases hview with heq | heq
    · rw [heq]
      simp [view, hrun]
    · rw [heq]
      simp [View.hand, view, hrun]
  simpa [view] using hwaits

theorem Ok.send (h : Ok c q s) (hcall : s.call = some call) (htimer : call.timer = .leaving) :
    Ok c q { s with
      kernel := s.kernel.msgSend call.waiter q call.waiterDoneMsg
      call := some { call with timer := .finished } } := by
  obtain ⟨hw, haway, houtside, honce⟩ := h.busy call hcall
  obtain ⟨hkernel, haway', hview⟩ := h.kernel.sendDone haway hw
  have hpending : (view c q (s.kernel.msgSend call.waiter q call.waiterDoneMsg)).pending call.inWait
      = (view c q s.kernel).pending call.inWait ++ [call.waiterDoneMsg] := by
    rw [hview]
    exact h.kernel.pending_hand houtside call.waiterDoneMsg
  refine ⟨hkernel, by simp, ?_, ?_⟩
  · rintro call' ⟨⟩
    refine ⟨hw, haway', fun hwait => ?_, ?_⟩
    · exact KernelOk.running_of_view (houtside hwait) (Or.inr hview)
    · show ((view c q _).pending call.inWait).count call.waiterDoneMsg = 1
      rw [if_neg (by simp [htimer])] at honce
      rw [hpending, count_append, honce]
      simp
  · have hold := h.account
    rw [Accounted, Sys.results, Sys.queued, hcall] at hold
    show s.others = s.returned ++ call.results
      ++ ((view c q _).pending call.inWait).filter (· ≠ call.waiterDoneMsg)
    rw [hpending, filter_append, filter_cons_of_neg (by simp), filter_nil,
      append_nil]
    exact hold

theorem Ok.other (h : Ok c q s) {op : Op} (hstep : Msg.Step s.kernel op k) (hother : Other c q s op)
    (hprivate : ∀ call, s.call = some call → opMessage op ≠ some call.waiterDoneMsg) :
    Ok c q { s with
      kernel := k
      others := s.others ++ (k.sent q).drop (s.kernel.sent q).length } := by
  -- The private message of a call in progress.
  have hP : ∀ d, (∃ call, s.call = some call ∧ call.waiterDoneMsg = d) →
      Away d q s.kernel ∧ opMessage op ≠ some d := by
    rintro d ⟨call, hcall, rfl⟩
    exact ⟨(h.busy call hcall).away, hprivate call hcall⟩
  have hwho : opTask op ≠ some c ∨
      ∃ q' m, op = .respond c q' m ∧ (s.kernel.msgs m).pseudosync = false :=
    hother.1.imp_right fun ⟨q', m, heq, _, hpseudo⟩ => ⟨q', m, heq, hpseudo⟩
  obtain ⟨hkernel, hview, haway⟩ := h.kernel.exec hstep.2 hwho hother.2 hP
  have hpriv : ∀ call, s.call = some call →
      ∃ call', s.call = some call' ∧ call'.waiterDoneMsg = call.waiterDoneMsg :=
    fun call hcall => ⟨call, hcall, rfl⟩
  rcases hview with hsame | ⟨m, hhand, hne⟩
  · have hsent : (k.sent q).drop (s.kernel.sent q).length = [] := by
      rw [show k.sent q = s.kernel.sent q from congrArg View.sent hsame]
      exact drop_length
    have hrun : s.kernel.tasks c = .running → k.tasks c = .running :=
      fun hrun => KernelOk.running_of_view (m := 0) hrun (Or.inl hsame)
    refine ⟨hkernel, fun hidle => hrun (h.idle hidle), fun call hcall => ?_, ?_⟩
    · obtain ⟨hw, -, houtside, honce⟩ := h.busy call hcall
      refine ⟨hw, haway _ (hpriv call hcall), fun hwait => hrun (houtside hwait), ?_⟩
      rw [hsame]
      exact honce
    · have hold := h.account
      rw [Accounted, Sys.results, Sys.queued] at hold ⊢
      dsimp only
      rw [hsent, append_nil, hsame]
      exact hold
  · have hsent : (k.sent q).drop (s.kernel.sent q).length = [m] := by
      have hlist : k.sent q = s.kernel.sent q ++ [m] := by
        refine (congrArg View.sent hhand).trans ?_
        exact View.hand_sent _ m
      rw [hlist]
      exact drop_left
    have hrun : s.kernel.tasks c = .running → k.tasks c = .running :=
      fun hrun => KernelOk.running_of_view hrun (Or.inr hhand)
    refine ⟨hkernel, fun hidle => hrun (h.idle hidle), fun call hcall => ?_, ?_⟩
    · obtain ⟨hw, -, houtside, honce⟩ := h.busy call hcall
      refine ⟨hw, haway _ (hpriv call hcall), fun hwait => hrun (houtside hwait), ?_⟩
      rw [hhand, h.kernel.pending_hand houtside, count_append, honce,
        count_eq_zero.mpr (by simpa using (hne _ (hpriv call hcall)).symm), Nat.add_zero]
    · have hold := h.account
      rw [Accounted, Sys.results, Sys.queued] at hold ⊢
      dsimp only
      rw [hsent, hhand]
      cases hcall : s.call with
      | none =>
        rw [hcall] at hold
        dsimp only at hold ⊢
        rw [h.kernel.pending_hand fun _ => h.idle hcall, hold]
        simp
      | some call =>
        rw [hcall] at hold
        dsimp only at hold ⊢
        have hmem : m ≠ call.waiterDoneMsg := hne _ (hpriv call hcall)
        rw [h.kernel.pending_hand (h.busy call hcall).outside, hold, filter_append,
          filter_cons_of_pos (by simpa using hmem)]
        simp

theorem Ok.step {s' : Sys} {act : Act} (h : Ok c q s) (hstep : Step c q s act s') :
    Ok c q s' := by
  cases hstep with
  | call hidle hw hunused => exact h.start hidle hw hunused _
  | wait hcall hwait => exact h.wait hcall hwait
  | accumulate hcall hwait hrun hmsg hne => exact h.accumulate hcall hwait hrun hmsg hne
  | done hcall hwait hrun hmsg => exact h.done hcall hwait hrun hmsg
  | poll hcall htimer => exact h.poll hcall htimer
  | send hcall htimer => exact h.send hcall htimer
  | other hstep hother hprivate => exact h.other hstep hother hprivate

/-- In every run of the task `c`, which calls `msg_wait_timeout` on the queue `q`
again and again, of the helper tasks and of the other tasks:

* what the other tasks sent to the queue is what the calls returned and then what
  is queued, in this order;
* when a call returns, its helper task is finished and its own message is in no
  queue;
* the caller does not wait once the helper task is finished. -/
theorem nothing_lost_of_run {msgs : Nat → Message} {acts : List Act} {s : Sys}
    (hrun : Run (Step c q) (Sys.init msgs) acts s) :
    Accounted c q s ∧
    (∀ s' call, Step c q s .receive s' → s.call = some call → s'.call = none →
      call.timer = .finished ∧ Unused s'.kernel call.waiterDoneMsg) ∧
    (∀ call, s.call = some call → call.timer = .finished → s.kernel.tasks c = .running) := by
  have hok : Ok c q s := hrun.invariant (Ok.init msgs) fun _ _ _ h hstep => h.step hstep
  refine ⟨hok.account, fun s' call hstep hcall hreturn => ?_, fun call hcall hfinished => ?_⟩
  · cases hstep with
    | accumulate => simp at hreturn
    | done hcall' hwait hrun' hmsg =>
      rw [hcall, Option.some.injEq] at hcall'
      subst hcall'
      exact hok.taken hcall hwait hrun' hmsg
  · have honce := (hok.busy call hcall).once
    rw [if_pos hfinished] at honce
    rcases hok.kernel.task with ⟨-, hrun'⟩ | ⟨-, hwait, hmessages⟩
    · exact hrun'
    · simp [View.pending, view, hwait, hmessages] at honce

/-- Task 1 sends message 5 while task 0 is in a call with message 7 and helper
task 2. -/
def oneCall : List Act :=
  [.call 7 2 10, .other (.send 1 0 5), .wait, .receive, .poll, .send, .wait, .receive]

theorem nothing_lost_of_run_one_call :
    ∃ s, Run (Step 0 0) (Sys.init userMessages) oneCall s ∧ s.call = none ∧ s.returned = [5] ∧
      Accounted 0 0 s := by
  have hunused : Unused (Sys.init userMessages).kernel 7 := by
    refine ⟨fun q => ?_, fun t q => ?_⟩ <;> simp [Sys.init, State.init]
  have hother : ∀ s : Sys, Other 0 0 s (.send 1 0 5) :=
    fun _ => ⟨Or.inl (by decide), fun _ => Op.noConfusion⟩
  have hrun : ∃ s, Run (Step 0 0) (Sys.init userMessages) oneCall s ∧ s.call = none ∧
      s.returned = [5] := by
    refine ⟨_, .cons (.call rfl (by decide) hunused) (.cons (.other ⟨⟨rfl, rfl⟩, rfl⟩ (hother _) ?_)
      (.cons (.wait rfl rfl) (.cons (.accumulate rfl rfl rfl rfl (by decide))
        (.cons (.poll rfl rfl) (.cons (.send rfl rfl) (.cons (.wait rfl rfl)
          (.cons (.done rfl rfl rfl rfl) .nil))))))), rfl, rfl⟩
    rintro call ⟨⟩
    decide
  obtain ⟨s, hrun, hcall, hreturned⟩ := hrun
  exact ⟨s, hrun, hcall, hreturned, (nothing_lost_of_run hrun).1⟩

end Hostboot.Msg.Timeout
