import Mathlib
import Hostboot.Lib.Lists
import Hostboot.Msg.Syscalls

/-!
# The pending objects of the message queues

A submitted message has one object, in the list of messages of its queue or in
the list of responses, and the object names the task that is deferred in
`msg_sendrecv` or the second queue of a pseudo-sync message.  A response that
was posted to a queue leaves an object behind when it is waited for, because
the message is still marked as one that expects a response.  Such an object
never hides the object of a submitted message: `find` answers the newest.

`Objects e s` says this of every message but `e`, which is on its way from one
place to another; no object of a submission stands for `e`.  The lemmas are the
moves of the system calls: take a message out of the account, change it, and
put it back in its new place.
-/

namespace Hostboot.Msg

open Hostboot.Lib Hostboot.Util List
open Function (update_of_ne update_self)

namespace State

/-- The objects of a message in the list of messages of a queue. -/
def messagesOf (s : State) (q m : Nat) : List MessagePending :=
  (s.queues q).messages.filter fun mp => mp.key = m

/-- The objects of a message in the list of responses of a queue. -/
def responsesOf (s : State) (q m : Nat) : List MessagePending :=
  (s.queues q).responses.filter fun mp => mp.key = m

/-- An object of a message submitted to `q`: it expects no response, or the task
it names is deferred for it, or it names the second queue. -/
def Request (s : State) (q : Nat) (mp : MessagePending) : Prop :=
  mp.reply = false ∧ (s.msgs mp.key).type < MSG_FIRST_SYS_TYPE ∧
    ((s.msgs mp.key).async = false ∨
      ((s.msgs mp.key).pseudosync = false ∧
        ∃ t, mp.task = .task t ∧ s.tasks t = .sending q mp.key) ∨
      ((s.msgs mp.key).pseudosync = true ∧ ∃ q2, mp.task = .queue q2))

/-- The message of a deferred task expects a response and has an object that
names the task. -/
def Caller (s : State) (t q m : Nat) : Prop :=
  (s.msgs m).async = true ∧ ∃ mp, mp.task = .task t ∧ mp.reply = false ∧
    ((s.place m = .queued q ∧ mp ∈ s.messagesOf q m) ∨
      (s.place m = .held q ∧ mp ∈ s.responsesOf q m))

end State

/-- The objects of a message: one of its submission, where the message is, and
otherwise objects of responses. -/
structure MsgOk (s : State) (m : Nat) : Prop where
  queued : ∀ q, s.place m = .queued q →
    ∃ mp, s.messagesOf q m = [mp] ∧ (mp.reply = true ∨ s.Request q mp)
  notQueued : ∀ q, s.place m ≠ .queued q → s.messagesOf q m = []
  held : ∀ q, s.place m = .held q →
    ∃ mp rest, s.responsesOf q m = mp :: rest ∧ s.Request q mp ∧ (s.msgs m).async = true ∧
      ∀ r ∈ rest, r.reply = true
  notHeld : ∀ q, s.place m ≠ .held q → ∀ r ∈ s.responsesOf q m, r.reply = true
  sending : ∀ t q, s.tasks t = .sending q m → s.Caller t q m
  responding : ∀ t q2, s.tasks t = .responding m q2 → s.place m = .posting t

/-- A message on its way from one place to another. -/
structure MsgOut (s : State) (m : Nat) : Prop where
  messages : ∀ q, s.messagesOf q m = []
  responses : ∀ q, ∀ r ∈ s.responsesOf q m, r.reply = true
  responding : ∀ t q2, s.tasks t ≠ .responding m q2

/-- The objects and the tasks are in order, but for the message `e`. -/
structure Objects (e : Option Nat) (s : State) : Prop where
  ok : ∀ m, e ≠ some m → MsgOk s m
  out : ∀ m, e = some m → MsgOut s m
  waiting : ∀ q, (s.queues q).waiting.Nodup ∧
    ∀ t ∈ (s.queues q).waiting, s.tasks t = .waiting q

/-! ## Steps that leave a message alone -/

/-- What a step has to leave alone for a message. -/
structure Same (s s' : State) (m : Nat) : Prop where
  msgs : s'.msgs m = s.msgs m
  messages : ∀ q, s'.messagesOf q m = s.messagesOf q m
  responses : ∀ q, s'.responsesOf q m = s.responsesOf q m
  place : s'.place m = s.place m
  sending : ∀ t q, s'.tasks t = .sending q m ↔ s.tasks t = .sending q m
  responding : ∀ t q2, s'.tasks t = .responding m q2 → s.tasks t = .responding m q2

theorem State.key_of_messagesOf {s : State} {q m : Nat} {mp : MessagePending}
    (h : mp ∈ s.messagesOf q m) : mp.key = m := by
  simpa using (mem_filter.mp h).2

theorem State.key_of_responsesOf {s : State} {q m : Nat} {mp : MessagePending}
    (h : mp ∈ s.responsesOf q m) : mp.key = m := by
  simpa using (mem_filter.mp h).2

theorem Same.request {s s' : State} {q m : Nat} {mp : MessagePending} (hs : Same s s' m)
    (hkey : mp.key = m) (h : s.Request q mp) : s'.Request q mp := by
  subst hkey
  obtain ⟨hreply, htype, hok⟩ := h
  rw [State.Request, hs.msgs]
  refine ⟨hreply, htype, hok.imp_right (Or.imp_left ?_)⟩
  rintro ⟨hpseudo, t, htask, ht⟩
  exact ⟨hpseudo, t, htask, (hs.sending t q).mpr ht⟩

theorem MsgOk.congr {s s' : State} {m : Nat} (h : MsgOk s m) (hs : Same s s' m) : MsgOk s' m := by
  refine ⟨?_, ?_, ?_, ?_, ?_, ?_⟩
  · intro q hplace
    rw [hs.place] at hplace
    obtain ⟨mp, hmp, hok⟩ := h.queued q hplace
    have hkey := State.key_of_messagesOf (hmp ▸ mem_cons_self : mp ∈ s.messagesOf q m)
    exact ⟨mp, (hs.messages q).trans hmp, hok.imp_right (hs.request hkey)⟩
  · intro q hplace
    rw [hs.place] at hplace
    rw [hs.messages]
    exact h.notQueued q hplace
  · intro q hplace
    rw [hs.place] at hplace
    obtain ⟨mp, rest, hmp, hok, hasync, hrest⟩ := h.held q hplace
    have hkey := State.key_of_responsesOf (hmp ▸ mem_cons_self : mp ∈ s.responsesOf q m)
    rw [hs.responses, hs.msgs]
    exact ⟨mp, rest, hmp, hs.request hkey hok, hasync, hrest⟩
  · intro q hplace
    rw [hs.place] at hplace
    rw [hs.responses]
    exact h.notHeld q hplace
  · intro t q ht
    rw [State.Caller, hs.place, hs.messages, hs.responses, hs.msgs]
    exact h.sending t q ((hs.sending t q).mp ht)
  · intro t q2 ht
    rw [hs.place]
    exact h.responding t q2 (hs.responding t q2 ht)

namespace State

variable {s : State} {q m : Nat}

theorem messagesOf_setQueue (s : State) (q q' m : Nat) (mq : MessageQueue) :
    (s.setQueue q mq).messagesOf q' m
      = if q' = q then mq.messages.filter (fun mp => mp.key = m) else s.messagesOf q' m := by
  by_cases hq : q' = q
  · subst hq
    simp [messagesOf]
  · simp [messagesOf, hq]

theorem responsesOf_setQueue (s : State) (q q' m : Nat) (mq : MessageQueue) :
    (s.setQueue q mq).responsesOf q' m
      = if q' = q then mq.responses.filter (fun mp => mp.key = m) else s.responsesOf q' m := by
  by_cases hq : q' = q
  · subst hq
    simp [responsesOf]
  · simp [responsesOf, hq]

theorem messagesOf_setQueue_of_eq {mq : MessageQueue} (h : mq.messages = (s.queues q).messages)
    (q' m : Nat) : (s.setQueue q mq).messagesOf q' m = s.messagesOf q' m := by
  rw [messagesOf_setQueue, h]
  split_ifs with hq
  · rw [hq]
    rfl
  · rfl

theorem responsesOf_setQueue_of_eq {mq : MessageQueue}
    (h : mq.responses = (s.queues q).responses) (q' m : Nat) :
    (s.setQueue q mq).responsesOf q' m = s.responsesOf q' m := by
  rw [responsesOf_setQueue, h]
  split_ifs with hq
  · rw [hq]
    rfl
  · rfl

theorem same_setQueue {mq : MessageQueue}
    (h1 : mq.messages.filter (fun mp => mp.key = m) = s.messagesOf q m)
    (h2 : mq.responses.filter (fun mp => mp.key = m) = s.responsesOf q m) :
    Same s (s.setQueue q mq) m := by
  refine ⟨rfl, fun q' => ?_, fun q' => ?_, rfl, fun _ _ => Iff.rfl, fun _ _ => id⟩
  · rw [messagesOf_setQueue]
    split_ifs with hq
    · rw [hq, h1]
    · rfl
  · rw [responsesOf_setQueue]
    split_ifs with hq
    · rw [hq, h2]
    · rfl

end State

theorem Same.setPlace {s s' : State} {m m' : Nat} (h : Same s s' m') (hne : m' ≠ m)
    (place : Place) : Same s (s'.setPlace m place) m' :=
  ⟨h.msgs, h.messages, h.responses, (update_of_ne hne _ _).trans h.place, h.sending,
    h.responding⟩

namespace Objects

variable {e : Option Nat} {s s' : State} {q m t : Nat} {mp : MessagePending}

theorem congr (h : Objects e s) (h1 : s'.msgs = s.msgs) (h2 : s'.queues = s.queues)
    (h3 : s'.tasks = s.tasks) (h4 : s'.place = s.place) : Objects e s' := by
  have hm : s'.messagesOf = s.messagesOf := by
    funext q m
    rw [State.messagesOf, h2]
    rfl
  have hr : s'.responsesOf = s.responsesOf := by
    funext q m
    rw [State.responsesOf, h2]
    rfl
  refine ⟨fun m hm' => (h.ok m hm').congr ?_, fun m hm' => ?_, ?_⟩
  · exact ⟨by rw [h1], fun q => by rw [hm], fun q => by rw [hr], by rw [h4],
      fun t q => by rw [h3], fun t q2 => by rw [h3]; exact id⟩
  · have hout := h.out m hm'
    exact ⟨by rw [hm]; exact hout.messages, by rw [hr]; exact hout.responses,
      by rw [h3]; exact hout.responding⟩
  · rw [h2, h3]
    exact h.waiting

theorem toOut (h : Objects e s) (he : ∀ m', m' ≠ m → e ≠ some m')
    (hs : ∀ m', m' ≠ m → Same s s' m') (hself : MsgOut s' m)
    (hwaiting : ∀ q, (s'.queues q).waiting.Nodup ∧
      ∀ t ∈ (s'.queues q).waiting, s'.tasks t = .waiting q) : Objects (some m) s' := by
  refine ⟨fun m' hm' => ?_, fun m' hm' => ?_, hwaiting⟩
  · have hne : m' ≠ m := fun heq => hm' (congrArg some heq.symm)
    exact (h.ok m' (he m' hne)).congr (hs m' hne)
  · rw [← Option.some.inj hm']
    exact hself

theorem toOk (h : Objects e s) (he : ∀ m', m' ≠ m → e ≠ some m')
    (hs : ∀ m', m' ≠ m → Same s s' m') (hself : MsgOk s' m)
    (hwaiting : ∀ q, (s'.queues q).waiting.Nodup ∧
      ∀ t ∈ (s'.queues q).waiting, s'.tasks t = .waiting q) : Objects none s' := by
  refine ⟨fun m' _ => ?_, fun m' hm' => absurd hm' (by simp), hwaiting⟩
  by_cases hne : m' = m
  · rw [hne]
    exact hself
  · exact (h.ok m' (he m' hne)).congr (hs m' hne)

theorem ne_of_out {m' : Nat} (hne : m' ≠ m) : some m ≠ some m' :=
  fun heq => hne (Option.some.inj heq).symm

theorem waiting_setQueue (h : Objects e s) {mq : MessageQueue}
    (hmq : mq.waiting = (s.queues q).waiting) (q' : Nat) :
    ((s.setQueue q mq).queues q').waiting.Nodup ∧
      ∀ t ∈ ((s.setQueue q mq).queues q').waiting, s.tasks t = .waiting q' := by
  by_cases hq : q' = q
  · subst hq
    simpa [hmq] using h.waiting q'
  · simpa [hq] using h.waiting q'

/-! ## Messages and tasks -/

theorem setMsg (h : Objects (some m) s) (msg : Message) : Objects (some m) (s.setMsg m msg) := by
  refine h.toOut (fun _ => ne_of_out) (fun m' hne => ?_) ?_ h.waiting
  · exact ⟨update_of_ne hne _ _, fun _ => rfl, fun _ => rfl, rfl, fun _ _ => Iff.rfl,
      fun _ _ => id⟩
  · have hout := h.out m rfl
    exact ⟨hout.messages, hout.responses, hout.responding⟩

/-- Changing the state of a task that does not wait and that no object names, but
for the message that is out of the account. -/
theorem setTask (h : Objects e s) {state : TaskState}
    (hsending : ∀ q m, s.tasks t = .sending q m → e = some m) (hwaiting : ∀ q, t ∉ (s.queues q).waiting)
    (hnew : ∀ q m, state = .sending q m → e = some m)
    (hresponding : ∀ m q2, state ≠ .responding m q2) : Objects e (s.setTask t state) := by
  refine ⟨fun m hm => (h.ok m hm).congr ⟨rfl, fun _ => rfl, fun _ => rfl, rfl, ?_, ?_⟩,
    fun m hm => ?_, ?_⟩
  · intro t' q
    by_cases heq : t' = t
    · subst heq
      rw [State.setTask_tasks, update_self]
      exact ⟨fun ht => absurd (hnew q m ht) hm, fun ht => absurd (hsending q m ht) hm⟩
    · rw [State.setTask_tasks, update_of_ne heq]
  · intro t' q2 ht
    by_cases heq : t' = t
    · subst heq
      rw [State.setTask_tasks, update_self] at ht
      exact absurd ht (hresponding m q2)
    · rw [State.setTask_tasks, update_of_ne heq] at ht
      exact ht
  · have hout := h.out m hm
    refine ⟨hout.messages, hout.responses, fun t' q2 ht => ?_⟩
    by_cases heq : t' = t
    · subst heq
      rw [State.setTask_tasks, update_self] at ht
      exact hresponding m q2 ht
    · rw [State.setTask_tasks, update_of_ne heq] at ht
      exact hout.responding t' q2 ht
  · intro q
    refine ⟨(h.waiting q).1, fun t' ht' => ?_⟩
    have hne : t' ≠ t := fun heq => hwaiting q (heq ▸ ht')
    exact (update_of_ne hne _ _).trans ((h.waiting q).2 t' ht')

theorem not_mem_waiting (h : Objects e s) (ht : ∀ q, s.tasks t ≠ .waiting q) (q : Nat) :
    t ∉ (s.queues q).waiting :=
  fun hmem => ht q ((h.waiting q).2 t hmem)

theorem setType (h : Objects none s) {type : Nat} (htype : type < MSG_FIRST_SYS_TYPE) :
    Objects none (s.setMsg m { s.msgs m with type := type }) := by
  have hm := h.ok m (by simp)
  have hmsg : (s.setMsg m { s.msgs m with type := type }).msgs m
      = { s.msgs m with type := type } := update_self _ _ _
  have hrequest : ∀ q mp, mp.key = m → s.Request q mp →
      (s.setMsg m { s.msgs m with type := type }).Request q mp := by
    rintro q mp rfl ⟨hreply, -, hok⟩
    rw [State.Request, hmsg]
    exact ⟨hreply, htype, hok⟩
  refine h.toOk (m := m) (fun _ _ => by simp) (fun m' hne => ?_) ?_ h.waiting
  · exact ⟨update_of_ne hne _ _, fun _ => rfl, fun _ => rfl, rfl, fun _ _ => Iff.rfl,
      fun _ _ => id⟩
  · refine ⟨?_, hm.notQueued, ?_, hm.notHeld, ?_, hm.responding⟩
    · intro q hplace
      obtain ⟨mp, hmp, hok⟩ := hm.queued q hplace
      have hkey := State.key_of_messagesOf (hmp ▸ mem_cons_self : mp ∈ s.messagesOf q m)
      exact ⟨mp, hmp, hok.imp_right (hrequest q mp hkey)⟩
    · intro q hplace
      obtain ⟨mp, rest, hmp, hok, hasync, hrest⟩ := hm.held q hplace
      have hkey := State.key_of_responsesOf (hmp ▸ mem_cons_self : mp ∈ s.responsesOf q m)
      rw [hmsg]
      exact ⟨mp, rest, hmp, hrequest q mp hkey hok, hasync, hrest⟩
    · intro t q ht
      obtain ⟨hasync, hobject⟩ := hm.sending t q ht
      rw [State.Caller, hmsg]
      exact ⟨hasync, hobject⟩

theorem addWaiting (h : Objects none s) (ht : s.tasks t = .running) (q : Nat) :
    Objects none ((s.setQueue q { s.queues q with waiting := t :: (s.queues q).waiting }).setTask t
      (.waiting q)) := by
  have hnot := h.not_mem_waiting (t := t) (by simp [ht])
  have htask : Objects none (s.setTask t (.waiting q)) :=
    h.setTask (by simp [ht]) hnot (by simp) (by simp)
  refine ⟨fun m hm => (htask.ok m hm).congr ?_, fun m hm => absurd hm (by simp), fun q' => ?_⟩
  · exact State.same_setQueue (s := s.setTask t (.waiting q)) rfl rfl
  · by_cases hq : q' = q
    · subst hq
      simp only [State.setTask, State.setQueue_queues, update_self]
      refine ⟨nodup_cons.mpr ⟨hnot q', (h.waiting q').1⟩, fun t' ht' => ?_⟩
      rcases mem_cons.mp ht' with rfl | ht'
      · exact update_self _ _ _
      · exact (htask.waiting q').2 t' ht'
    · have hqueue : (((s.setQueue q { s.queues q with waiting := t :: (s.queues q).waiting }).setTask
          t (.waiting q)).queues q') = s.queues q' := update_of_ne hq _ _
      rw [hqueue]
      exact htask.waiting q'

/-! ## Taking a message out of the account -/

theorem exempt (h : Objects none s) (hqueued : ∀ q, s.place m ≠ .queued q)
    (hheld : ∀ q, s.place m ≠ .held q) (hpost : ∀ t q2, s.tasks t ≠ .responding m q2) :
    Objects (some m) s := by
  have hm := h.ok m (by simp)
  refine h.toOut (fun _ _ => by simp) (fun m' _ => ?_) ?_ h.waiting
  · exact ⟨rfl, fun _ => rfl, fun _ => rfl, rfl, fun _ _ => Iff.rfl, fun _ _ => id⟩
  · exact ⟨fun q => hm.notQueued q (hqueued q), fun q => hm.notHeld q (hheld q), hpost⟩

theorem no_caller (h : Objects none s) (hqueued : ∀ q, s.place m ≠ .queued q)
    (hheld : ∀ q, s.place m ≠ .held q) (t q : Nat) : s.tasks t ≠ .sending q m := by
  intro ht
  obtain ⟨-, mp, -, -, ⟨hplace, -⟩ | ⟨hplace, -⟩⟩ := (h.ok m (by simp)).sending t q ht
  · exact hqueued q hplace
  · exact hheld q hplace

theorem removeMessage (h : Objects none s) {rest : List MessagePending}
    (hlist : (s.queues q).messages = rest ++ [mp]) :
    Objects (some mp.key) (s.setQueue q { s.queues q with messages := rest }) ∧
      s.place mp.key = .queued q ∧ (mp.reply = true ∨ s.Request q mp) := by
  have hmsg := h.ok mp.key (by simp)
  have hfilter : s.messagesOf q mp.key
      = rest.filter (fun mp' => mp'.key = mp.key) ++ [mp] := by
    rw [State.messagesOf, hlist, filter_append]
    simp
  have hplace : s.place mp.key = .queued q := by
    by_contra hno
    have hnil := hmsg.notQueued q hno
    rw [hfilter] at hnil
    exact absurd hnil (by simp)
  obtain ⟨mp', hmp', hok⟩ := hmsg.queued q hplace
  rw [hfilter] at hmp'
  rcases append_eq_singleton_iff.mp hmp' with ⟨hrest, heq⟩ | ⟨-, hno⟩
  · rw [singleton_inj] at heq
    subst heq
    refine ⟨?_, hplace, hok⟩
    refine h.toOut (fun _ _ => by simp) (fun m' hne => ?_) ⟨fun q' => ?_, fun q' => ?_, ?_⟩
      (h.waiting_setQueue rfl)
    · refine State.same_setQueue ?_ rfl
      rw [State.messagesOf, hlist, filter_append]
      simp [Ne.symm hne]
    · rw [State.messagesOf_setQueue]
      split_ifs with hq
      · exact hrest
      · exact hmsg.notQueued q' (by simpa [hplace] using Ne.symm hq)
    · rw [State.responsesOf_setQueue_of_eq]
      · exact hmsg.notHeld q' (by simp [hplace])
      · rfl
    · intro t q2 ht
      exact absurd ((hmsg.responding t q2 ht).symm.trans hplace) (by simp)
  · exact absurd hno (by simp)

theorem removeResponse (h : Objects none s) {rest : List MessagePending}
    (hplace : s.place m = .held q) (hlist : s.responsesOf q m = mp :: rest) :
    Objects (some m)
      (s.setQueue q { s.queues q with responses := (s.queues q).responses.erase mp }) := by
  have hmsg := h.ok m (by simp)
  have hkey : mp.key = m := State.key_of_responsesOf (hlist ▸ mem_cons_self)
  obtain ⟨mp', rest', hlist', -, -, hrest⟩ := hmsg.held q hplace
  rw [hlist, List.cons.injEq] at hlist'
  refine h.toOut (fun _ _ => by simp) (fun m' hne => ?_) ⟨fun q' => ?_, fun q' => ?_, ?_⟩
    (h.waiting_setQueue rfl)
  · refine State.same_setQueue rfl (Lists.filter_erase_of_not ?_ _)
    rw [decide_eq_false_iff_not, hkey]
    exact Ne.symm hne
  · rw [State.messagesOf_setQueue_of_eq]
    · exact hmsg.notQueued q' (by simp [hplace])
    · rfl
  · rw [State.responsesOf_setQueue]
    split_ifs with hq
    · rw [Lists.filter_erase_head hlist, hlist'.2]
      exact hrest
    · exact hmsg.notHeld q' (by simpa [hplace] using Ne.symm hq)
  · intro t q2 ht
    exact absurd ((hmsg.responding t q2 ht).symm.trans hplace) (by simp)

theorem removeWaiting (h : Objects e s) {rest : List Nat}
    (hlist : (s.queues q).waiting = rest ++ [t]) :
    Objects e (s.setQueue q { s.queues q with waiting := rest }) ∧
      ∀ q', t ∉ ((s.setQueue q { s.queues q with waiting := rest }).queues q').waiting := by
  have hq := h.waiting q
  rw [hlist] at hq
  have hnodup := nodup_append.mp hq.1
  refine ⟨⟨fun m hm => (h.ok m hm).congr (State.same_setQueue rfl rfl), fun m hm => ?_, ?_⟩, ?_⟩
  · have hout := h.out m hm
    refine ⟨fun q' => ?_, fun q' => ?_, hout.responding⟩
    · rw [State.messagesOf_setQueue_of_eq]
      · exact hout.messages q'
      · rfl
    · rw [State.responsesOf_setQueue_of_eq]
      · exact hout.responses q'
      · rfl
  · intro q'
    by_cases heq : q' = q
    · subst heq
      rw [State.setQueue_queues, update_self]
      exact ⟨hnodup.1, fun t' ht' => hq.2 t' (mem_append_left _ ht')⟩
    · rw [State.setQueue_queues, update_of_ne heq]
      exact h.waiting q'
  · intro q' hmem
    by_cases heq : q' = q
    · subst heq
      rw [State.setQueue_queues, update_self] at hmem
      exact hnodup.2.2 t hmem t mem_cons_self rfl
    · rw [State.setQueue_queues, update_of_ne heq] at hmem
      have h1 := (h.waiting q').2 t hmem
      have h2 := hq.2 t (mem_append_right _ mem_cons_self)
      rw [h1] at h2
      exact heq (TaskState.waiting.inj h2)

/-! ## Putting it back -/

theorem queue (h : Objects (some m) s) (hkey : mp.key = m)
    (hok : mp.reply = true ∨ s.Request q mp)
    (hcaller : ∀ t q', s.tasks t = .sending q' m →
      q' = q ∧ mp.task = .task t ∧ mp.reply = false ∧ (s.msgs m).async = true) :
    Objects none ((s.setQueue q
      { s.queues q with messages := mp :: (s.queues q).messages }).setPlace m (.queued q)) := by
  have hout := h.out m rfl
  have hlist : (mp :: (s.queues q).messages).filter (fun mp' => mp'.key = m) = [mp] := by
    rw [filter_cons_of_pos (by simpa using hkey)]
    exact congrArg _ (hout.messages q)
  refine h.toOk (fun _ => ne_of_out) (fun m' hne => ?_) ?_ (h.waiting_setQueue rfl)
  · refine Same.setPlace (State.same_setQueue ?_ ?_) hne _
    · rw [filter_cons_of_neg (by simpa [hkey] using Ne.symm hne)]
      rfl
    · rfl
  · refine ⟨?_, ?_, ?_, ?_, ?_, ?_⟩
    · intro q' hplace
      rw [State.setPlace_place, update_self, Place.queued.injEq] at hplace
      subst hplace
      refine ⟨mp, ?_, hok⟩
      exact (State.messagesOf_setQueue s q q m _).trans ((if_pos rfl).trans hlist)
    · intro q' hplace
      rw [State.setPlace_place, update_self, ne_eq, Place.queued.injEq] at hplace
      exact (State.messagesOf_setQueue s q q' m _).trans
        ((if_neg (Ne.symm hplace)).trans (hout.messages q'))
    · intro q' hplace
      rw [State.setPlace_place, update_self] at hplace
      exact absurd hplace (by simp)
    · intro q' _ r hr
      have heq : (s.setQueue q
          { s.queues q with messages := mp :: (s.queues q).messages }).responsesOf q' m
            = s.responsesOf q' m := by
        apply State.responsesOf_setQueue_of_eq
        rfl
      exact hout.responses q' r (heq ▸ hr)
    · intro t q' ht
      obtain ⟨rfl, htask, hreply, hasync⟩ := hcaller t q' ht
      refine ⟨hasync, mp, htask, hreply, Or.inl ⟨update_self _ _ _, ?_⟩⟩
      have : mp ∈ (s.setQueue q'
          { s.queues q' with messages := mp :: (s.queues q').messages }).messagesOf q' m := by
        rw [State.messagesOf_setQueue, if_pos rfl, hlist]
        exact mem_cons_self
      exact this
    · intro t q2 ht
      exact absurd ht (hout.responding t q2)

theorem hold (h : Objects (some m) s) (hkey : mp.key = m) (hok : s.Request q mp)
    (hasync : (s.msgs m).async = true)
    (hcaller : ∀ t q', s.tasks t = .sending q' m →
      q' = q ∧ mp.task = .task t ∧ mp.reply = false) :
    Objects none ((s.setQueue q
      { s.queues q with responses := mp :: (s.queues q).responses }).setPlace m (.held q)) := by
  have hout := h.out m rfl
  have hlist : (mp :: (s.queues q).responses).filter (fun mp' => mp'.key = m)
      = mp :: s.responsesOf q m :=
    filter_cons_of_pos (by simpa using hkey)
  refine h.toOk (fun _ => ne_of_out) (fun m' hne => ?_) ?_ (h.waiting_setQueue rfl)
  · refine Same.setPlace (State.same_setQueue ?_ ?_) hne _
    · rfl
    · rw [filter_cons_of_neg (by simpa [hkey] using Ne.symm hne)]
      rfl
  · refine ⟨?_, ?_, ?_, ?_, ?_, ?_⟩
    · intro q' hplace
      rw [State.setPlace_place, update_self] at hplace
      exact absurd hplace (by simp)
    · intro q' _
      have heq : (s.setQueue q
          { s.queues q with responses := mp :: (s.queues q).responses }).messagesOf q' m
            = s.messagesOf q' m := by
        apply State.messagesOf_setQueue_of_eq
        rfl
      exact heq.trans (hout.messages q')
    · intro q' hplace
      rw [State.setPlace_place, update_self, Place.held.injEq] at hplace
      subst hplace
      refine ⟨mp, s.responsesOf q m, ?_, hok, hasync, hout.responses q⟩
      exact (State.responsesOf_setQueue s q q m _).trans ((if_pos rfl).trans hlist)
    · intro q' hplace
      rw [State.setPlace_place, update_self, ne_eq, Place.held.injEq] at hplace
      have heq := (State.responsesOf_setQueue s q q' m
        { s.queues q with responses := mp :: (s.queues q).responses }).trans
        (if_neg (Ne.symm hplace))
      intro r hr
      exact hout.responses q' r (heq ▸ hr)
    · intro t q' ht
      obtain ⟨rfl, htask, hreply⟩ := hcaller t q' ht
      refine ⟨hasync, mp, htask, hreply, Or.inr ⟨update_self _ _ _, ?_⟩⟩
      have : mp ∈ (s.setQueue q'
          { s.queues q' with responses := mp :: (s.queues q').responses }).responsesOf q' m := by
        rw [State.responsesOf_setQueue, if_pos rfl, hlist]
        exact mem_cons_self
      exact this
    · intro t q2 ht
      exact absurd ht (hout.responding t q2)

theorem release (h : Objects (some m) s) (hcaller : ∀ t q, s.tasks t ≠ .sending q m) :
    Objects none (s.setPlace m .idle) := by
  have hout := h.out m rfl
  refine h.toOk (fun _ => ne_of_out) (fun m' hne => ?_) ?_ h.waiting
  · have hsame : Same s s m' :=
      ⟨rfl, fun _ => rfl, fun _ => rfl, rfl, fun _ _ => Iff.rfl, fun _ _ => id⟩
    exact hsame.setPlace hne .idle
  · refine ⟨?_, fun q _ => hout.messages q, ?_, fun q _ => hout.responses q, ?_, ?_⟩
    · intro q hq
      rw [State.setPlace_place, update_self] at hq
      exact absurd hq (by simp)
    · intro q hq
      rw [State.setPlace_place, update_self] at hq
      exact absurd hq (by simp)
    · intro t q ht
      exact absurd ht (hcaller t q)
    · intro t q2 ht
      exact absurd ht (hout.responding t q2)

theorem keepReply (h : Objects (some m) s) (hkey : mp.key = m) (hreply : mp.reply = true) :
    Objects (some m)
      (s.setQueue q { s.queues q with responses := mp :: (s.queues q).responses }) := by
  have hout := h.out m rfl
  refine h.toOut (fun _ => ne_of_out) (fun m' hne => ?_) ⟨fun q' => ?_, fun q' => ?_,
    hout.responding⟩ (h.waiting_setQueue rfl)
  · refine State.same_setQueue rfl ?_
    rw [filter_cons_of_neg (by simpa [hkey] using Ne.symm hne)]
    rfl
  · rw [State.messagesOf_setQueue_of_eq]
    · exact hout.messages q'
    · rfl
  · rw [State.responsesOf_setQueue]
    split_ifs with hq
    · rw [filter_cons_of_pos (by simpa using hkey)]
      intro r hr
      rcases mem_cons.mp hr with rfl | hr
      · exact hreply
      · exact hout.responses q r hr
    · exact hout.responses q'

theorem post (h : Objects (some m) s) (ht : s.tasks t = .running) (q2 : Nat)
    (hcaller : ∀ t q, s.tasks t ≠ .sending q m) :
    Objects none ((s.setTask t (.responding m q2)).setPlace m (.posting t)) := by
  have hout := h.out m rfl
  have htask : ∀ t' state, (s.setTask t (.responding m q2)).tasks t' = state →
      t' = t ∧ state = .responding m q2 ∨ t' ≠ t ∧ s.tasks t' = state := by
    intro t' state ht'
    by_cases heq : t' = t
    · subst heq
      rw [State.setTask_tasks, update_self] at ht'
      exact Or.inl ⟨rfl, ht'.symm⟩
    · rw [State.setTask_tasks, update_of_ne heq] at ht'
      exact Or.inr ⟨heq, ht'⟩
  refine h.toOk (fun _ => ne_of_out) (fun m' hne => ?_) ?_ ?_
  · have hsame : Same s (s.setTask t (.responding m q2)) m' := by
      refine ⟨rfl, fun _ => rfl, fun _ => rfl, rfl, fun t' q => ⟨?_, ?_⟩, ?_⟩
      · intro ht'
        rcases htask t' _ ht' with ⟨-, hno⟩ | ⟨-, hold⟩
        · exact absurd hno (by simp)
        · exact hold
      · intro ht'
        have heq : t' ≠ t := by
          rintro rfl
          rw [ht] at ht'
          exact absurd ht' (by simp)
        exact (update_of_ne heq _ _).trans ht'
      · intro t' q' ht'
        rcases htask t' _ ht' with ⟨-, hno⟩ | ⟨-, hold⟩
        · exact absurd (TaskState.responding.inj hno).1 hne
        · exact hold
    exact hsame.setPlace hne _
  · refine ⟨?_, fun q _ => hout.messages q, ?_, fun q _ => hout.responses q, ?_, ?_⟩
    · intro q hq
      rw [State.setPlace_place, update_self] at hq
      exact absurd hq (by simp)
    · intro q hq
      rw [State.setPlace_place, update_self] at hq
      exact absurd hq (by simp)
    · intro t' q ht'
      rcases htask t' _ ht' with ⟨-, hno⟩ | ⟨-, hold⟩
      · exact absurd hno (by simp)
      · exact absurd hold (hcaller t' q)
    · intro t' q' ht'
      rw [State.setPlace_place, update_self]
      rcases htask t' _ ht' with ⟨heq, -⟩ | ⟨-, hold⟩
      · rw [heq]
      · exact absurd hold (hout.responding t' q')
  · intro q
    refine ⟨(h.waiting q).1, fun t' ht' => ?_⟩
    have hwait := (h.waiting q).2 t' ht'
    have heq : t' ≠ t := by
      rintro rfl
      rw [ht] at hwait
      exact absurd hwait (by simp)
    exact (update_of_ne heq _ _).trans hwait

/-! ## The deferred task of a message -/

/-- The task deferred for a queued message is the one its object names. -/
theorem caller_of_queued (h : Objects none s) (hplace : s.place m = .queued q)
    (hlist : s.messagesOf q m = [mp]) {q' : Nat} (ht : s.tasks t = .sending q' m) :
    q' = q ∧ mp.task = .task t ∧ mp.reply = false ∧ (s.msgs m).async = true := by
  obtain ⟨hasync, mp', htask, hreply, ⟨hplace', hmem⟩ | ⟨hplace', -⟩⟩ :=
    (h.ok m (by simp)).sending t q' ht
  · rw [hplace, Place.queued.injEq] at hplace'
    subst hplace'
    rw [hlist, mem_singleton] at hmem
    subst hmem
    exact ⟨rfl, htask, hreply, hasync⟩
  · exact absurd (hplace.symm.trans hplace') (by simp)

/-- The task deferred for a delivered message is the one its newest object
names. -/
theorem caller_of_held (h : Objects none s) (hplace : s.place m = .held q)
    {rest : List MessagePending} (hlist : s.responsesOf q m = mp :: rest) {q' : Nat}
    (ht : s.tasks t = .sending q' m) : q' = q ∧ mp.task = .task t := by
  have hmsg := h.ok m (by simp)
  obtain ⟨mp', rest', hlist', -, -, hrest⟩ := hmsg.held q hplace
  rw [hlist, List.cons.injEq] at hlist'
  obtain ⟨-, mp'', htask, hreply, ⟨hplace', -⟩ | ⟨hplace', hmem⟩⟩ := hmsg.sending t q' ht
  · exact absurd (hplace.symm.trans hplace') (by simp)
  · rw [hplace, Place.held.injEq] at hplace'
    subst hplace'
    rw [hlist] at hmem
    rcases mem_cons.mp hmem with rfl | hmem
    · exact ⟨rfl, htask⟩
    · rw [hrest mp'' (hlist'.2 ▸ hmem)] at hreply
      exact absurd hreply (by simp)

end Objects

end Hostboot.Msg
