import Mathlib
import Hostboot.Lib.Run
import Hostboot.Msg.Objects

/-!
# Delivery of messages and resumption of synchronous senders

For a queue the messages sent are the messages delivered and then the messages
in the list, in this order; the tasks that called `msg_wait` are the tasks that
got a message and then the tasks that wait.  So the n-th message sent goes to
the n-th `msg_wait`.  For a task the `msg_sendrecv` calls are the calls it was
resumed from, each by the response to its own message, and the call it is
deferred in.

Two things break this.  `MsgSendRecv` sets the pseudo-sync bit of a message and
nobody clears it, so a later `msg_sendrecv` of the message does not defer its
caller.  `MsgWait` keeps an object of a posted response, and a `msg_respond`
that finds it takes the task that posted the response for a deferred sender,
or for a queue.  `Op.Fine` says that a step does neither.
-/

namespace Hostboot.Msg

open Hostboot.Lib Hostboot.Util
open Function (update update_of_ne update_self)

/-! ## The laws -/

/-- The account of a queue. -/
structure QueueOk (s : State) (q : Nat) : Prop where
  sent : s.sent q
    = (s.delivered q).map Prod.fst ++ (s.queues q).messages.reverse.map MessagePending.key
  waits : s.waits q = (s.delivered q).map Prod.snd ++ (s.queues q).waiting.reverse
  empty : (s.queues q).waiting ≠ [] → (s.queues q).messages = []

/-- The account of a task. -/
def SyncOk (s : State) (t : Nat) : Prop :=
  match s.tasks t with
  | .sending q m => s.calls t = (q, m) :: s.resumes t
  | _ => s.calls t = s.resumes t

/-- The invariant of the message system calls, with `e` on its way. -/
structure KernelOk (e : Option Nat) (s : State) : Prop where
  objects : Objects e s
  queue : ∀ q, QueueOk s q
  sync : ∀ t, SyncOk s t

/-! ## Handing a message to a queue -/

namespace State

theorem hand_cases (s : State) (q : Nat) (mp : MessagePending) (keep : Bool) :
    ((s.queues q).waiting = [] ∧ s.hand q mp keep = s.enqueue q mp) ∨
      ∃ rest w, (s.queues q).waiting = rest ++ [w] ∧
        s.hand q mp keep = s.handOver q mp keep w rest := by
  unfold hand
  cases hremove : Queue.remove (s.queues q).waiting with
  | none => exact Or.inl ⟨Queue.remove_eq_none hremove, rfl⟩
  | some pair => exact Or.inr ⟨pair.2, pair.1, Queue.remove_eq_some hremove, rfl⟩

/-- `msg_sendrecv`.  The pseudo-sync bit of the message decides whether the caller
is deferred. -/
theorem msgSendRecv_blk {s : State} {m : Nat} (t q : Nat)
    (htype : (s.msgs m).type < MSG_FIRST_SYS_TYPE) :
    s.msgSendRecv t q m none =
      if (s.msgs m).pseudosync then
        ((s.setMsg m { s.msgs m with async := true }).call t q m).hand q ⟨m, .null, false⟩ true
      else (((s.setMsg m { s.msgs m with async := true }).call t q m).setTask t (.sending q m)).hand q
        ⟨m, .task t, false⟩ true := by
  have hset : { s.msgs m with async := true, pseudosync := (s.msgs m).pseudosync || false }
      = { s.msgs m with async := true } := by simp
  have hbit : (((s.setMsg m { s.msgs m with async := true }).call t q m).msgs m).pseudosync
      = (s.msgs m).pseudosync := by simp [call]
  unfold msgSendRecv
  simp only [Option.isSome_none, Option.isNone_none, if_true, if_neg (Nat.not_le.mpr htype), hset,
    hbit]
  cases (s.msgs m).pseudosync <;> rfl

theorem msgSendRecv_sync {s : State} {m : Nat} (t q : Nat)
    (htype : (s.msgs m).type < MSG_FIRST_SYS_TYPE) (hpseudo : (s.msgs m).pseudosync = false) :
    s.msgSendRecv t q m none =
      (((s.setMsg m { s.msgs m with async := true }).call t q m).setTask t (.sending q m)).hand q
        ⟨m, .task t, false⟩ true :=
  (msgSendRecv_blk t q htype).trans (if_neg (by simp [hpseudo]))

theorem msgSendRecv_pseudo {s : State} {m : Nat} (t q : Nat)
    (htype : (s.msgs m).type < MSG_FIRST_SYS_TYPE) (hpseudo : (s.msgs m).pseudosync = true) :
    s.msgSendRecv t q m none =
      ((s.setMsg m { s.msgs m with async := true }).call t q m).hand q ⟨m, .null, false⟩ true :=
  (msgSendRecv_blk t q htype).trans (if_pos hpseudo)

theorem msgSendRecv_noblk {s : State} {m : Nat} (t q q2 : Nat)
    (htype : (s.msgs m).type < MSG_FIRST_SYS_TYPE) :
    s.msgSendRecv t q m (some q2) =
      (s.setMsg m { s.msgs m with async := true, pseudosync := true }).hand q
        ⟨m, .queue q2, false⟩ true := by
  unfold msgSendRecv
  simp [Nat.not_le.mpr htype]

theorem msgSendRecv_rejected {s : State} {m : Nat} (t q : Nat) (mq2 : Option Nat)
    (htype : ¬ (s.msgs m).type < MSG_FIRST_SYS_TYPE) :
    s.msgSendRecv t q m mq2 = s.setMsg m { s.msgs m with
      async := true
      pseudosync := (s.msgs m).pseudosync || mq2.isSome } :=
  if_pos (Nat.not_lt.mp htype)

theorem msgWait_cases (s : State) (t q : Nat) :
    ((s.queues q).messages = [] ∧ s.msgWait t q = s.await t q) ∨
      ∃ rest mp, (s.queues q).messages = rest ++ [mp] ∧
        s.msgWait t q = s.receive t q mp rest := by
  unfold msgWait
  cases hremove : Queue.remove (s.queues q).messages with
  | none => exact Or.inl ⟨Queue.remove_eq_none hremove, rfl⟩
  | some pair => exact Or.inr ⟨pair.2, pair.1, Queue.remove_eq_some hremove, rfl⟩

end State

theorem QueueOk.of_ne {s s' : State} {q q' : Nat} (h : QueueOk s q') (hne : q' ≠ q)
    {mq : MessageQueue} (h1 : s'.queues = update s.queues q mq)
    (h2 : s'.sent q' = s.sent q') (h3 : s'.waits q' = s.waits q')
    (h4 : s'.delivered q' = s.delivered q') : QueueOk s' q' := by
  have hq : s'.queues q' = s.queues q' := by
    rw [h1, update_of_ne hne]
  refine ⟨?_, ?_, ?_⟩
  · rw [h2, h4, hq]
    exact h.sent
  · rw [h3, h4, hq]
    exact h.waits
  · rw [hq]
    exact h.empty

theorem QueueOk.hand {s : State} (h : ∀ q, QueueOk s q) (q : Nat) (mp : MessagePending)
    (keep : Bool) (q' : Nat) : QueueOk (s.hand q mp keep) q' := by
  have hold := h q
  rcases s.hand_cases q mp keep with ⟨hwaiting, heq⟩ | ⟨rest, w, hwaiting, heq⟩
  · rw [heq]
    by_cases hne : q' = q
    · subst hne
      refine ⟨?_, ?_, ?_⟩
      · simp [State.enqueue, Queue.insert, hold.sent]
      · simpa [State.enqueue] using hold.waits
      · simp [State.enqueue, hwaiting]
    · exact (h q').of_ne hne rfl (update_of_ne hne _ _) rfl rfl
  · have hmessages := hold.empty (by simp [hwaiting])
    rw [heq]
    by_cases hne : q' = q
    · subst hne
      refine ⟨?_, ?_, ?_⟩
      · simp [State.handOver, hold.sent, hmessages]
      · simp [State.handOver, hold.waits, hwaiting]
      · simp [State.handOver, hmessages]
    · exact (h q').of_ne hne rfl (update_of_ne hne _ _) rfl (update_of_ne hne _ _)

theorem QueueOk.setQueue {s : State} (h : ∀ q, QueueOk s q) {q : Nat} {mq : MessageQueue}
    (hmessages : mq.messages = (s.queues q).messages) (hwaiting : mq.waiting = (s.queues q).waiting)
    (q' : Nat) : QueueOk (s.setQueue q mq) q' := by
  by_cases hne : q' = q
  · subst hne
    have hqueue : (s.setQueue q' mq).queues q' = mq := update_self _ _ _
    refine ⟨?_, ?_, ?_⟩
    · rw [hqueue, hmessages]
      exact (h q').sent
    · rw [hqueue, hwaiting]
      exact (h q').waits
    · rw [hqueue, hmessages, hwaiting]
      exact (h q').empty
  · exact (h q').of_ne hne rfl rfl rfl rfl

theorem SyncOk.setTask {s s' : State} {t : Nat} (h : SyncOk s t)
    (hold : ∀ q m, s.tasks t ≠ .sending q m) (hnew : ∀ q m, s'.tasks t ≠ .sending q m)
    (hcalls : s'.calls t = s.calls t) (hresumes : s'.resumes t = s.resumes t) : SyncOk s' t := by
  rw [SyncOk] at h ⊢
  rw [hcalls, hresumes]
  cases ht : s.tasks t <;> cases ht' : s'.tasks t <;> simp_all

theorem SyncOk.congr {s s' : State} {t : Nat} (h : SyncOk s t) (htask : s'.tasks t = s.tasks t)
    (hcalls : s'.calls t = s.calls t) (hresumes : s'.resumes t = s.resumes t) : SyncOk s' t := by
  rw [SyncOk, htask, hcalls, hresumes]
  exact h

theorem SyncOk.hand {s : State} (h : ∀ t, SyncOk s t) (q : Nat) (mp : MessagePending)
    (keep : Bool) (hwaiting : ∀ t ∈ (s.queues q).waiting, s.tasks t = .waiting q) (t : Nat) :
    SyncOk (s.hand q mp keep) t := by
  rcases s.hand_cases q mp keep with ⟨-, heq⟩ | ⟨rest, w, hlist, heq⟩
  · rw [heq]
    exact h t
  · rw [heq]
    by_cases hne : t = w
    · subst hne
      have ht : s.tasks t = .waiting q := hwaiting t (by simp [hlist])
      exact (h t).setTask (by simp [ht]) (by simp [State.handOver]) rfl rfl
    · exact (h t).congr (update_of_ne hne _ _) rfl rfl

theorem Objects.hand {s : State} {m q : Nat} {mp : MessagePending} {keep : Bool}
    (h : Objects (some m) s) (hkey : mp.key = m) (hok : mp.reply = true ∨ s.Request q mp)
    (hkeep : keep = true → s.Request q mp ∧ (s.msgs m).async = true)
    (hcaller : ∀ t q', s.tasks t = .sending q' m →
      q' = q ∧ mp.task = .task t ∧ mp.reply = false ∧ keep = true) :
    Objects none (s.hand q mp keep) := by
  have hqueued : ∀ t q', s.tasks t = .sending q' m →
      q' = q ∧ mp.task = .task t ∧ mp.reply = false ∧ (s.msgs m).async = true := by
    intro t q' ht
    obtain ⟨h1, h2, h3, h4⟩ := hcaller t q' ht
    exact ⟨h1, h2, h3, (hkeep h4).2⟩
  subst hkey
  rcases s.hand_cases q mp keep with ⟨-, heq⟩ | ⟨rest, w, hlist, heq⟩
  · rw [heq]
    exact (h.queue rfl hok hqueued).congr rfl rfl rfl rfl
  · rw [heq]
    have hw : s.tasks w = .waiting q := (h.waiting q).2 w (by simp [hlist])
    -- First the waiting task leaves the list, then it runs, then the message
    -- finds its place.
    obtain ⟨hremoved, hnot⟩ := h.removeWaiting hlist
    have hrun : Objects (some mp.key)
        ((s.setQueue q { s.queues q with waiting := rest }).setTask w .running) :=
      hremoved.setTask (by simp [State.setQueue, hw]) hnot (by simp) (by simp)
    have hsending : ∀ t q', update s.tasks w .running t = .sending q' mp.key ↔
        s.tasks t = .sending q' mp.key := by
      intro t q'
      by_cases hne : t = w
      · subst hne
        simp [hw]
      · rw [update_of_ne hne]
    cases keep with
    | true =>
      obtain ⟨⟨hreply, htype, hrequest⟩, hasync⟩ := hkeep rfl
      have hrequest' : ((s.setQueue q { s.queues q with waiting := rest }).setTask w
          .running).Request q mp := by
        refine ⟨hreply, htype, hrequest.imp_right (Or.imp_left ?_)⟩
        rintro ⟨hpseudo, t, htask, ht⟩
        exact ⟨hpseudo, t, htask, (hsending t q).mpr ht⟩
      have hheld := hrun.hold rfl hrequest' hasync fun t q' ht => by
        obtain ⟨h1, h2, h3, -⟩ := hcaller t q' ((hsending t q').mp ht)
        exact ⟨h1, h2, h3⟩
      refine hheld.congr rfl ?_ rfl rfl
      simp [State.handOver, State.setPlace, State.setTask, Queue.insert]
    | false =>
      refine Objects.congr (hrun.release ?_) rfl rfl rfl rfl
      intro t q' ht
      exact absurd (hcaller t q' ((hsending t q').mp ht)).2.2.2 (by simp)

/-! ## The system calls -/

namespace KernelOk

variable {s s' : State} {m q t : Nat}

theorem hand {mp : MessagePending} {keep : Bool} (h : KernelOk (some m) s) (hkey : mp.key = m)
    (hok : mp.reply = true ∨ s.Request q mp)
    (hkeep : keep = true → s.Request q mp ∧ (s.msgs m).async = true)
    (hcaller : ∀ t q', s.tasks t = .sending q' m →
      q' = q ∧ mp.task = .task t ∧ mp.reply = false ∧ keep = true) :
    KernelOk none (s.hand q mp keep) :=
  ⟨h.objects.hand hkey hok hkeep hcaller, QueueOk.hand h.queue q mp keep,
    SyncOk.hand h.sync q mp keep (h.objects.waiting q).2⟩

theorem exempt (h : KernelOk none s) (hplace : s.place m = .idle) : KernelOk (some m) s := by
  refine ⟨h.objects.exempt (by simp [hplace]) (by simp [hplace]) ?_, h.queue, h.sync⟩
  intro t q2 ht
  have hpost := (h.objects.ok m (by simp)).responding t q2 ht
  exact absurd (hpost.symm.trans hplace) (by simp)

theorem no_caller (h : KernelOk none s) (hplace : s.place m = .idle) (t q : Nat) :
    s.tasks t ≠ .sending q m :=
  h.objects.no_caller (by simp [hplace]) (by simp [hplace]) t q

theorem setMsg (h : KernelOk (some m) s) (msg : Message) : KernelOk (some m) (s.setMsg m msg) :=
  ⟨h.objects.setMsg msg, fun q => ⟨(h.queue q).sent, (h.queue q).waits, (h.queue q).empty⟩,
    fun t => (h.sync t).congr rfl rfl rfl⟩

theorem write (h : KernelOk none s) (hplace : s.place m = .idle) (msg : Message) :
    KernelOk none (s.setMsg m msg) := by
  have hout := (h.exempt hplace).setMsg msg
  have hidle := hout.objects.release fun t q => h.no_caller hplace t q
  refine ⟨hidle.congr rfl rfl rfl ?_, hout.queue, hout.sync⟩
  simp [State.setPlace, State.setMsg, ← hplace]

theorem msgSend (h : KernelOk none s) (hplace : s.place m = .idle) :
    KernelOk none (s.msgSend t q m) := by
  unfold State.msgSend
  dsimp only
  split_ifs with htype
  · exact h.write hplace _
  · refine ((h.exempt hplace).setMsg _).hand rfl (Or.inr ⟨rfl, ?_, Or.inl ?_⟩) (by simp) ?_
    · simpa using htype
    · simp
    · exact fun t q ht => absurd ht (h.no_caller hplace t q)

theorem msgSendRecv (h : KernelOk none s) (ht : s.tasks t = .running) (hplace : s.place m = .idle)
    (hfine : (s.msgs m).type < MSG_FIRST_SYS_TYPE → (s.msgs m).pseudosync = false) :
    KernelOk none (s.msgSendRecv t q m none) := by
  by_cases htype : (s.msgs m).type < MSG_FIRST_SYS_TYPE
  · have hpseudo := hfine htype
    rw [State.msgSendRecv_sync t q htype hpseudo]
    have hout := (h.exempt hplace).setMsg { s.msgs m with async := true }
    have hcalled : KernelOk (some m)
        (((s.setMsg m { s.msgs m with async := true }).call t q m).setTask t (.sending q m)) := by
      have hcall : Objects (some m) ((s.setMsg m { s.msgs m with async := true }).call t q m) :=
        hout.objects.congr rfl rfl rfl rfl
      have hnot := h.objects.not_mem_waiting (t := t) (by simp [ht])
      refine ⟨?_, fun q => ⟨(h.queue q).sent, (h.queue q).waits, (h.queue q).empty⟩, fun t' => ?_⟩
      · exact hcall.setTask (fun _ _ hno => absurd (ht.symm.trans hno) (by simp)) hnot
          (fun _ _ heq => congrArg some (TaskState.sending.inj heq).2) (by simp)
      · by_cases heq : t' = t
        · subst heq
          have hold := h.sync t'
          rw [SyncOk, ht] at hold
          simpa [SyncOk, State.call, State.setTask, State.setMsg] using hold
        · refine (h.sync t').congr (update_of_ne heq _ _) ?_ rfl
          exact update_of_ne heq _ _
    have hself : update s.tasks t (.sending q m) t = .sending q m :=
      update_self _ _ _
    have hmsg : (update s.msgs m { s.msgs m with async := true } m)
        = { s.msgs m with async := true } := update_self _ _ _
    have hrequest : (((s.setMsg m { s.msgs m with async := true }).call t q m).setTask t
        (.sending q m)).Request q ⟨m, .task t, false⟩ := by
      refine ⟨rfl, ?_, Or.inr (Or.inl ⟨?_, t, rfl, hself⟩)⟩
      · simpa [State.call, State.setTask] using htype
      · simpa [State.call, State.setTask] using hpseudo
    refine hcalled.hand rfl (Or.inr hrequest) (fun _ => ⟨hrequest, ?_⟩) ?_
    · simp [State.call, State.setTask]
    · intro t' q' ht'
      by_cases heq : t' = t
      · subst heq
        rw [State.setTask_tasks, update_self, TaskState.sending.injEq] at ht'
        exact ⟨ht'.1.symm, rfl, rfl, rfl⟩
      · rw [State.setTask_tasks, update_of_ne heq] at ht'
        exact absurd ht' (h.no_caller hplace t' q')
  · rw [State.msgSendRecv_rejected t q none htype]
    exact h.write hplace _

theorem msgSendRecvNoblk (h : KernelOk none s) (hplace : s.place m = .idle) (q2 : Nat) :
    KernelOk none (s.msgSendRecv t q m (some q2)) := by
  by_cases htype : (s.msgs m).type < MSG_FIRST_SYS_TYPE
  · rw [State.msgSendRecv_noblk t q q2 htype]
    have hout := (h.exempt hplace).setMsg { s.msgs m with async := true, pseudosync := true }
    have hrequest : (s.setMsg m { s.msgs m with async := true, pseudosync := true }).Request q
        ⟨m, .queue q2, false⟩ := by
      refine ⟨rfl, ?_, Or.inr (Or.inr ⟨?_, q2, rfl⟩)⟩
      · simpa using htype
      · simp
    refine hout.hand rfl (Or.inr hrequest) (fun _ => ⟨hrequest, by simp⟩) ?_
    exact fun t' q' ht' => absurd ht' (h.no_caller hplace t' q')
  · rw [State.msgSendRecv_rejected t q (some q2) htype]
    exact h.write hplace _

theorem await (h : KernelOk none s) (ht : s.tasks t = .running)
    (hmessages : (s.queues q).messages = []) : KernelOk none (s.await t q) := by
  refine ⟨(h.objects.addWaiting ht q).congr rfl rfl rfl rfl, fun q' => ?_, fun t' => ?_⟩
  · have hold := h.queue q
    by_cases hne : q' = q
    · subst hne
      refine ⟨?_, ?_, ?_⟩
      · simpa [State.await] using hold.sent
      · simp [State.await, Queue.insert, hold.waits]
      · simp [State.await, hmessages]
    · exact (h.queue q').of_ne hne rfl rfl (update_of_ne hne _ _) rfl
  · by_cases hne : t' = t
    · subst hne
      exact (h.sync t').setTask (by simp [ht]) (by simp [State.await]) rfl rfl
    · exact (h.sync t').congr (update_of_ne hne _ _) rfl rfl

theorem receive {mp : MessagePending} {rest : List MessagePending} (h : KernelOk none s)
    (hmessages : (s.queues q).messages = rest ++ [mp]) : KernelOk none (s.receive t q mp rest) := by
  refine ⟨?_, fun q' => ?_, fun t' => (h.sync t').congr rfl rfl rfl⟩
  · obtain ⟨hout, hplace, hok⟩ := h.objects.removeMessage hmessages
    have hlist : s.messagesOf q mp.key = [mp] := by
      obtain ⟨mp', hlist, -⟩ := (h.objects.ok mp.key (by simp)).queued q hplace
      have hmem : mp ∈ s.messagesOf q mp.key := List.mem_filter.mpr ⟨by simp [hmessages], by simp⟩
      rw [hlist, List.mem_singleton] at hmem
      rw [hlist, hmem]
    have hcaller : ∀ t' q', s.tasks t' = .sending q' mp.key →
        q' = q ∧ mp.task = .task t' ∧ mp.reply = false ∧ (s.msgs mp.key).async = true :=
      fun _ _ ht' => h.objects.caller_of_queued hplace hlist ht'
    cases hasync : (s.msgs mp.key).async with
    | false =>
      refine (hout.release fun t' q' ht' => ?_).congr rfl ?_ rfl ?_
      · rw [(hcaller t' q' ht').2.2.2] at hasync
        exact absurd hasync (by simp)
      · simp [State.receive, State.setPlace, hasync]
      · simp [State.receive, hasync]
        rfl
    | true =>
      cases hreply : mp.reply with
      | true =>
        have hkept := hout.keepReply (q := q) rfl hreply
        refine (hkept.release fun t' q' ht' => ?_).congr rfl ?_ rfl ?_
        · rw [(hcaller t' q' ht').2.2.1] at hreply
          exact absurd hreply (by simp)
        · simp [State.receive, State.setPlace, hasync, Queue.insert]
        · simp [State.receive, hreply]
          rfl
      | false =>
        have hrequest := hok.resolve_left (by simp [hreply])
        refine (hout.hold (q := q) rfl hrequest hasync fun t' q' ht' => ?_).congr rfl ?_ rfl ?_
        · obtain ⟨h1, h2, h3, -⟩ := hcaller t' q' ht'
          exact ⟨h1, h2, h3⟩
        · simp [State.receive, State.setPlace, hasync, Queue.insert]
        · simp [State.receive, hasync, hreply]
          rfl
  · have hold := h.queue q
    have hwaiting : (s.queues q).waiting = [] := by
      by_contra hno
      simpa [hmessages] using hold.empty hno
    by_cases hne : q' = q
    · subst hne
      refine ⟨?_, ?_, ?_⟩
      · simp [State.receive, hold.sent, hmessages]
      · simp [State.receive, hold.waits, hwaiting]
      · simp [State.receive, hwaiting]
    · exact (h.queue q').of_ne hne rfl rfl (update_of_ne hne _ _)
        (update_of_ne hne _ _)

theorem msgWait (h : KernelOk none s) (ht : s.tasks t = .running) :
    KernelOk none (s.msgWait t q) := by
  rcases s.msgWait_cases t q with ⟨hmessages, heq⟩ | ⟨rest, mp, hmessages, heq⟩
  · rw [heq]
    exact h.await ht hmessages
  · rw [heq]
    exact h.receive hmessages

/-! ## Responses -/

/-- The cases of `MsgRespond` when the object it finds is not one of a response:
there is none, or the message was delivered from the queue and its second
queue or its deferred sender is known. -/
theorem msgRespond_cases (h : KernelOk none s) (t : Nat)
    (hfine : ∀ mp, (s.queues q).responses.find? (fun mp => mp.key = m) = some mp →
      mp.reply = false) :
    (s.place m ≠ .held q ∧ s.msgRespond t q m = some s) ∨
      ∃ mp rest, s.place m = .held q ∧ s.responsesOf q m = mp :: rest ∧
        (((s.msgs m).pseudosync = true ∧ ∃ q2, mp.task = .queue q2 ∧
            s.msgRespond t q m = some (((s.setQueue q
              { s.queues q with responses := (s.queues q).responses.erase mp }).setTask t
                (.responding m q2)).setPlace m (.posting t))) ∨
          ((s.msgs m).pseudosync = false ∧ ∃ w, mp.task = .task w ∧ s.tasks w = .sending q m ∧
            s.msgRespond t q m = some (((s.setQueue q
              { s.queues q with responses := (s.queues q).responses.erase mp }).setPlace m
                .idle).resume w q m))) := by
  have hm := h.objects.ok m (by simp)
  have hhead : (s.responsesOf q m).head?
      = (s.queues q).responses.find? (fun mp => mp.key = m) := List.head?_filter
  unfold State.msgRespond
  dsimp only
  cases hfind : (s.queues q).responses.find? (fun mp => mp.key = m) with
  | none =>
    refine Or.inl ⟨fun hplace => ?_, rfl⟩
    obtain ⟨mp, rest, hlist, -⟩ := hm.held q hplace
    rw [hfind, hlist] at hhead
    exact absurd hhead (by simp)
  | some mp =>
    have hmem : mp ∈ s.responsesOf q m := List.mem_of_head? (hhead.trans hfind)
    have hplace : s.place m = .held q := by
      by_contra hno
      have hreply := hm.notHeld q hno mp hmem
      rw [hfine mp hfind] at hreply
      exact absurd hreply (by simp)
    obtain ⟨mp', rest, hlist, ⟨-, htype, hrequest⟩, hasync, -⟩ := hm.held q hplace
    rw [hfind, hlist, List.head?_cons, Option.some.injEq] at hhead
    subst hhead
    obtain rfl : mp'.key = m := State.key_of_responsesOf hmem
    refine Or.inr ⟨mp', rest, hplace, hlist, ?_⟩
    have htype' : ¬ (s.msgs mp'.key).type ≥ MSG_FIRST_SYS_TYPE := Nat.not_le.mpr htype
    rcases hrequest with hno | ⟨hpseudo, w, htask, hw⟩ | ⟨hpseudo, q2, htask⟩
    · rw [hasync] at hno
      exact absurd hno (by simp)
    · exact Or.inr ⟨hpseudo, w, htask, hw, by simp [State.setQueue, htype', hpseudo, htask]⟩
    · exact Or.inl ⟨hpseudo, q2, htask, by simp [State.setQueue, htype', hpseudo, htask]⟩

theorem msgRespond (h : KernelOk none s) (ht : s.tasks t = .running)
    (hfine : ∀ mp, (s.queues q).responses.find? (fun mp => mp.key = m) = some mp →
      mp.reply = false) : ∃ s', s.msgRespond t q m = some s' ∧ KernelOk none s' := by
  rcases h.msgRespond_cases t hfine with ⟨-, heq⟩ | ⟨mp, rest, hplace, hlist, hcase⟩
  · exact ⟨s, heq, h⟩
  · have hout := h.objects.removeResponse hplace hlist
    have hqueue : ∀ q', QueueOk (s.setQueue q
        { s.queues q with responses := (s.queues q).responses.erase mp }) q' :=
      QueueOk.setQueue h.queue rfl rfl
    have hcaller : ∀ t' q', s.tasks t' = .sending q' m → q' = q ∧ mp.task = .task t' :=
      fun _ _ ht' => h.objects.caller_of_held hplace hlist ht'
    rcases hcase with ⟨-, q2, htask, heq⟩ | ⟨-, w, htask, hw, heq⟩
    · refine ⟨_, heq, hout.post ht q2 ?_, fun q' => ?_, fun t' => ?_⟩
      · intro t' q' ht'
        exact absurd (htask.symm.trans (hcaller t' q' ht').2) (by simp)
      · exact ⟨(hqueue q').sent, (hqueue q').waits, (hqueue q').empty⟩
      · by_cases hne : t' = t
        · subst hne
          refine (h.sync t').setTask (by simp [ht]) ?_ rfl rfl
          simp [State.setPlace, State.setTask]
        · exact (h.sync t').congr (update_of_ne hne _ _) rfl rfl
    · refine ⟨_, heq, ?_, fun q' => ?_, fun t' => ?_⟩
      · have hrun : Objects (some m) ((s.setQueue q
            { s.queues q with responses := (s.queues q).responses.erase mp }).setTask w
              .running) := by
          refine hout.setTask ?_ ?_ (by simp) (by simp)
          · intro q' m' hw'
            exact congrArg some (TaskState.sending.inj (hw.symm.trans hw')).2
          · exact hout.not_mem_waiting fun q' hw' => absurd (hw.symm.trans hw') (by simp)
        refine (hrun.release fun t' q' ht' => ?_).congr rfl rfl rfl rfl
        by_cases hne : t' = w
        · subst hne
          rw [State.setTask_tasks, update_self] at ht'
          exact absurd ht' (by simp)
        · rw [State.setTask_tasks, update_of_ne hne] at ht'
          have htask' := (hcaller t' q' ht').2
          rw [htask, Pointer.task.injEq] at htask'
          exact hne htask'.symm
      · exact ⟨(hqueue q').sent, (hqueue q').waits, (hqueue q').empty⟩
      · by_cases hne : t' = w
        · subst hne
          have hold := h.sync t'
          rw [SyncOk, hw] at hold
          simpa [SyncOk, State.resume, State.setPlace, State.setQueue, State.setTask] using hold
        · refine (h.sync t').congr (update_of_ne hne _ _) rfl ?_
          exact update_of_ne hne _ _

theorem postResponse {q2 : Nat} (h : KernelOk none s) (ht : s.tasks t = .responding m q2) :
    ∃ s', s.postResponse t = some s' ∧ KernelOk none s' := by
  have hplace : s.place m = .posting t := (h.objects.ok m (by simp)).responding t q2 ht
  have hrun : Objects none (s.setTask t .running) :=
    h.objects.setTask (by simp [ht]) (h.objects.not_mem_waiting (by simp [ht])) (by simp) (by simp)
  have hcaller := hrun.no_caller (m := m) (by simp [State.setTask, hplace])
    (by simp [State.setTask, hplace])
  have hout : Objects (some m) (s.setTask t .running) := by
    refine hrun.exempt (by simp [State.setTask, hplace]) (by simp [State.setTask, hplace]) ?_
    intro t' q' ht'
    have hpost : s.place m = .posting t' := (hrun.ok m (by simp)).responding t' q' ht'
    rw [hplace, Place.posting.injEq] at hpost
    subst hpost
    rw [State.setTask_tasks, update_self] at ht'
    exact absurd ht' (by simp)
  have hkernel : KernelOk (some m) (s.setTask t .running) := by
    refine ⟨hout, fun q => ⟨(h.queue q).sent, (h.queue q).waits, (h.queue q).empty⟩, fun t' => ?_⟩
    by_cases hne : t' = t
    · subst hne
      exact (h.sync t').setTask (by simp [ht]) (by simp) rfl rfl
    · exact (h.sync t').congr (update_of_ne hne _ _) rfl rfl
  refine ⟨(s.setTask t .running).hand q2 ⟨m, .task t, true⟩ false, ?_, ?_⟩
  · unfold State.postResponse
    rw [ht]
  · exact hkernel.hand rfl (Or.inl rfl) (by simp) fun t' q' ht' => absurd ht' (hcaller t' q')

theorem setType {type : Nat} (h : KernelOk none s)
    (hok : s.place m = .idle ∨ type < MSG_FIRST_SYS_TYPE) :
    KernelOk none (s.setMsg m { s.msgs m with type := type }) := by
  rcases hok with hplace | htype
  · exact h.write hplace _
  · exact ⟨h.objects.setType htype,
      fun q => ⟨(h.queue q).sent, (h.queue q).waits, (h.queue q).empty⟩,
      fun t => (h.sync t).congr rfl rfl rfl⟩

end KernelOk

/-! ## Runs -/

/-- The step does not reach what the reused bits of a message break: no
synchronous call of a message with a pseudo-sync bit left by an earlier
`msg_sendrecv_noblk`, and no response to an object that `MsgWait` kept of a
posted response. -/
def Op.Fine (s : State) : Op → Prop
  | .sendrecv _ _ m =>
    (s.msgs m).type < MSG_FIRST_SYS_TYPE → (s.msgs m).pseudosync = false
  | .respond _ q m => ∀ mp, (s.queues q).responses.find? (fun mp => mp.key = m) = some mp →
      mp.reply = false
  | _ => True

/-- A fine step. -/
def FineStep (s : State) (op : Op) (s' : State) : Prop := Step s op s' ∧ op.Fine s

theorem KernelOk.exec {s : State} {op : Op} (h : KernelOk none s) (hallowed : op.Allowed s)
    (hfine : op.Fine s) : ∃ s', s.exec op = some s' ∧ KernelOk none s' := by
  cases op with
  | send t q m => exact ⟨_, rfl, h.msgSend hallowed.2⟩
  | sendrecv t q m => exact ⟨_, rfl, h.msgSendRecv hallowed.1 hallowed.2 hfine⟩
  | sendrecvNoblk t q m q2 => exact ⟨_, rfl, h.msgSendRecvNoblk hallowed.2 q2⟩
  | wait t q => exact ⟨_, rfl, h.msgWait hallowed⟩
  | respond t q m => exact h.msgRespond hallowed hfine
  | post t =>
    obtain ⟨m, q2, ht⟩ := hallowed
    exact h.postResponse ht
  | allocate m type => exact ⟨_, rfl, h.write hallowed _⟩
  | setType m type => exact ⟨_, rfl, h.setType hallowed⟩

theorem KernelOk.step {s s' : State} {op : Op} (h : KernelOk none s) (hstep : FineStep s op s') :
    KernelOk none s' := by
  obtain ⟨⟨hallowed, hexec⟩, hfine⟩ := hstep
  obtain ⟨s'', hexec', h'⟩ := h.exec hallowed hfine
  rw [hexec, Option.some.injEq] at hexec'
  rw [hexec']
  exact h'

theorem KernelOk.init (msgs : Nat → Message) : KernelOk none (State.init msgs) := by
  refine ⟨⟨fun m _ => ?_, by simp, fun q => ?_⟩, fun q => ?_, fun t => rfl⟩
  · refine ⟨?_, ?_, ?_, ?_, ?_, ?_⟩ <;> simp [State.init, State.messagesOf, State.responsesOf]
  · simp [State.init]
  · exact ⟨rfl, rfl, by simp [State.init]⟩

theorem KernelOk.of_run {msgs : Nat → Message} {ops : List Op} {s : State}
    (hrun : Run FineStep (State.init msgs) ops s) : KernelOk none s :=
  hrun.invariant (KernelOk.init msgs) fun _ _ _ h hstep => h.step hstep

/-- The n-th message sent to a queue goes to the n-th `msg_wait` on it, once
both are there. -/
theorem QueueOk.delivered_eq_zip {s : State} {q : Nat} (h : QueueOk s q) :
    s.delivered q = (s.sent q).zip (s.waits q) := by
  have hrest : ((s.queues q).messages.reverse.map MessagePending.key).zip
      (s.queues q).waiting.reverse = [] := by
    by_cases hwaiting : (s.queues q).waiting = []
    · simp [hwaiting]
    · simp [h.empty hwaiting]
  rw [h.sent, h.waits, List.zip_append (by simp), hrest, List.append_nil]
  exact List.zip_of_prod rfl rfl

/-- In every run that does not make a synchronous call with a leftover
pseudo-sync bit and does not respond to a leftover object of a response:

* the messages sent to a queue are the messages delivered from it and then those
  in its list, in this order, and the n-th is delivered to the n-th `msg_wait`;
* a queue with a waiting task has no message in its list;
* the synchronous calls of a task are the calls it was resumed from, each by the
  response to its own message on its own queue, and the call it is deferred in;
* each next step of this kind has a result. -/
theorem delivery_of_run {msgs : Nat → Message} {ops : List Op} {s : State}
    (hrun : Run FineStep (State.init msgs) ops s) :
    (∀ q, QueueOk s q ∧ s.delivered q = (s.sent q).zip (s.waits q)) ∧
    (∀ t, SyncOk s t) ∧
    (∀ op : Op, op.Allowed s → op.Fine s → ∃ s', FineStep s op s') := by
  have hok := KernelOk.of_run hrun
  refine ⟨fun q => ⟨hok.queue q, (hok.queue q).delivered_eq_zip⟩, hok.sync, ?_⟩
  intro op hallowed hfine
  obtain ⟨s', hexec, -⟩ := hok.exec hallowed hfine
  exact ⟨s', ⟨hallowed, hexec⟩, hfine⟩

/-- Messages of user space, as `msg_allocate` makes them. -/
def userMessages : Nat → Message := fun _ => ⟨0, false, false⟩

/-- Task 0 sends message 0 to queue 0 and is resumed by the response of task 1. -/
theorem delivery_of_run_sendrecv :
    ∃ s, Run FineStep (State.init userMessages)
        [.sendrecv 0 0 0, .wait 1 0, .respond 1 0 0] s ∧
      s.calls 0 = [(0, 0)] ∧ SyncOk s 0 ∧ s.delivered 0 = (s.sent 0).zip (s.waits 0) := by
  have hrun : ∃ s, Run FineStep (State.init userMessages)
      [.sendrecv 0 0 0, .wait 1 0, .respond 1 0 0] s ∧ s.calls 0 = [(0, 0)] := by
    refine ⟨_, .cons ⟨⟨⟨rfl, rfl⟩, rfl⟩, fun _ => rfl⟩ (.cons ⟨⟨rfl, rfl⟩, trivial⟩
      (.cons ⟨⟨rfl, rfl⟩, ?_⟩ .nil)), rfl⟩
    rintro mp ⟨⟩
    rfl
  obtain ⟨s, hrun, hcalls⟩ := hrun
  obtain ⟨hqueue, hsync, -⟩ := delivery_of_run hrun
  exact ⟨s, hrun, hcalls, hsync 0, (hqueue 0).2⟩

/-- Message 0 goes through `msg_sendrecv_noblk` and back to task 0. -/
def pseudoSyncRound : List Op :=
  [.sendrecvNoblk 0 0 0 1, .wait 1 0, .respond 1 0 0, .post 1, .wait 0 1]

/-- Task 0 then calls `msg_sendrecv` with the same message: it runs on, though it
was not resumed, and the response to the message has no result. -/
theorem not_deferred_after_pseudo_sync :
    ∃ s, Run Step (State.init userMessages) (pseudoSyncRound ++ [.sendrecv 0 0 0, .wait 1 0]) s ∧
      s.tasks 0 = .running ∧ s.calls 0 = [(0, 0)] ∧ s.resumes 0 = [] ∧ ¬ SyncOk s 0 ∧
      s.place 0 = .held 0 ∧ s.exec (.respond 1 0 0) = none := by
  refine ⟨_, .cons ⟨⟨rfl, rfl⟩, rfl⟩ (.cons ⟨rfl, rfl⟩ (.cons ⟨rfl, rfl⟩
    (.cons ⟨⟨0, 1, rfl⟩, rfl⟩ (.cons ⟨rfl, rfl⟩ (.cons ⟨⟨rfl, rfl⟩, rfl⟩
      (.cons ⟨rfl, rfl⟩ .nil)))))), rfl, rfl, rfl, ?_, rfl, rfl⟩
  intro hsync
  have hcalls : [((0 : Nat), (0 : Nat))] = [] := hsync
  exact List.cons_ne_nil _ _ hcalls

end Hostboot.Msg
