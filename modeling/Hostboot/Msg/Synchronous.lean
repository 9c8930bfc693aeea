import Mathlib
import Hostboot.Msg.Delivery

/-!
# The synchronous call

`msg_sendrecv` is synchronous if its caller goes on only when somebody responds
to the message on the queue it was sent to, and if this response resumes the
caller and posts nothing.  `MsgSendRecv` decides between the synchronous and
the pseudo-sync path by the pseudo-sync bit of the message.  The bit is set by
`msg_sendrecv_noblk` and cleared only by `msg_allocate`, so the answer depends on
what the message was used for before.

A step changes the state of a task that is deferred in `msg_sendrecv` only if it
is the response to its message (`KernelOk.sending_step`).  The rest is an
induction over the run after the call.
-/

namespace Hostboot.Msg

open Hostboot.Lib Hostboot.Util
open Function (update_of_ne update_self)

/-! ## Steps and the deferred task -/

/-- Handing a message to a queue resumes only a task that waits for it. -/
theorem State.hand_tasks {s : State} {t q : Nat} (mp : MessagePending) (keep : Bool)
    (hnot : t ∉ (s.queues q).waiting) : (s.hand q mp keep).tasks t = s.tasks t := by
  rcases s.hand_cases q mp keep with ⟨-, heq⟩ | ⟨rest, w, hlist, heq⟩
  · rw [heq]
    rfl
  · rw [heq]
    have hne : t ≠ w := by
      rintro rfl
      exact hnot (by simp [hlist])
    exact update_of_ne hne _ _

theorem State.msgSendRecv_tasks {s : State} {t t' q m : Nat} (mq2 : Option Nat) (hne : t ≠ t')
    (hnot : ∀ q, t ∉ (s.queues q).waiting) :
    (s.msgSendRecv t' q m mq2).tasks t = s.tasks t := by
  by_cases htype : (s.msgs m).type < MSG_FIRST_SYS_TYPE
  · cases mq2 with
    | none =>
      cases hpseudo : (s.msgs m).pseudosync with
      | false =>
        rw [State.msgSendRecv_sync t' q htype hpseudo]
        apply (State.hand_tasks _ _ _).trans
        · exact update_of_ne hne _ _
        · exact hnot q
      | true =>
        rw [State.msgSendRecv_pseudo t' q htype hpseudo]
        apply State.hand_tasks
        exact hnot q
    | some q2 =>
      rw [State.msgSendRecv_noblk t' q q2 htype]
      apply State.hand_tasks
      exact hnot q
  · rw [State.msgSendRecv_rejected t' q mq2 htype]
    rfl

theorem State.msgWait_tasks {s : State} {t t' : Nat} (q : Nat) (hne : t ≠ t') :
    (s.msgWait t' q).tasks t = s.tasks t := by
  rcases s.msgWait_cases t' q with ⟨-, heq⟩ | ⟨rest, mp, -, heq⟩
  · rw [heq]
    exact update_of_ne hne _ _
  · rw [heq]
    rfl

/-- The response to the message of a deferred task: it has no effect before the
message was delivered, and then it resumes the task. -/
theorem KernelOk.respond_cases {s s' : State} {t t' q m : Nat} (h : KernelOk none s)
    (ht : s.tasks t = .sending q m) (hstep : FineStep s (.respond t' q m) s') :
    (s.place m ≠ .held q ∧ s' = s) ∨
      ∃ mp, s.place m = .held q ∧ s' = ((s.setQueue q
        { s.queues q with responses := (s.queues q).responses.erase mp }).setPlace m
          .idle).resume t q m := by
  obtain ⟨⟨-, hexec⟩, hfine⟩ := hstep
  replace hexec : s.msgRespond t' q m = some s' := hexec
  rcases h.msgRespond_cases t' hfine with ⟨hplace, heq⟩ | ⟨mp, rest, hplace, hlist, hcase⟩
  · rw [hexec, Option.some.injEq] at heq
    exact Or.inl ⟨hplace, heq⟩
  · have htask := (h.objects.caller_of_held hplace hlist ht).2
    rcases hcase with ⟨-, q2, htask', -⟩ | ⟨-, w, htask', -, heq⟩
    · exact absurd (htask.symm.trans htask') (by simp)
    · obtain rfl : t = w := Pointer.task.inj (htask.symm.trans htask')
      rw [hexec, Option.some.injEq] at heq
      exact Or.inr ⟨mp, hplace, heq⟩

theorem KernelOk.sending_step {s s' : State} {op : Op} {t q m : Nat} (h : KernelOk none s)
    (ht : s.tasks t = .sending q m) (hstep : FineStep s op s')
    (hop : ∀ t', op ≠ .respond t' q m) : s'.tasks t = .sending q m := by
  have hnot := h.objects.not_mem_waiting (t := t) (by simp [ht])
  have hrunning : ∀ t', s.tasks t' = .running → t ≠ t' := by
    rintro t' ht' rfl
    exact absurd (ht.symm.trans ht') (by simp)
  obtain ⟨⟨hallowed, hexec⟩, hfine⟩ := hstep
  rw [← ht]
  cases op with
  | send t' q' m' =>
    obtain rfl := Option.some.inj hexec
    unfold State.msgSend
    dsimp only
    split_ifs
    · rfl
    · apply State.hand_tasks
      exact hnot q'
  | sendrecv t' q' m' =>
    obtain rfl := Option.some.inj hexec
    exact State.msgSendRecv_tasks none (hrunning t' hallowed.1) hnot
  | sendrecvNoblk t' q' m' q2 =>
    obtain rfl := Option.some.inj hexec
    exact State.msgSendRecv_tasks (some q2) (hrunning t' hallowed.1) hnot
  | wait t' q' =>
    obtain rfl := Option.some.inj hexec
    exact State.msgWait_tasks q' (hrunning t' hallowed)
  | respond t' q' m' =>
    replace hexec : s.msgRespond t' q' m' = some s' := hexec
    rcases h.msgRespond_cases t' hfine with ⟨-, heq⟩ | ⟨mp, rest, -, -, hcase⟩
    · rw [hexec, Option.some.injEq] at heq
      rw [heq]
    · rcases hcase with ⟨-, q2, -, heq⟩ | ⟨-, w, -, hw, heq⟩
      · rw [hexec, Option.some.injEq] at heq
        rw [heq]
        exact update_of_ne (hrunning t' hallowed) _ _
      · rw [hexec, Option.some.injEq] at heq
        have hne : t ≠ w := by
          rintro rfl
          obtain ⟨rfl, rfl⟩ := TaskState.sending.inj (ht.symm.trans hw)
          exact hop t' rfl
        rw [heq]
        exact update_of_ne hne _ _
  | post t' =>
    obtain ⟨m', q2, ht'⟩ := hallowed
    have hne : t ≠ t' := by
      rintro rfl
      exact absurd (ht.symm.trans ht') (by simp)
    replace hexec : s.postResponse t' = some s' := hexec
    unfold State.postResponse at hexec
    rw [ht'] at hexec
    obtain rfl := Option.some.inj hexec
    apply (State.hand_tasks _ _ _).trans
    · exact update_of_ne hne _ _
    · exact hnot q2
  | allocate m' type =>
    obtain rfl := Option.some.inj hexec
    rfl
  | setType m' type =>
    obtain rfl := Option.some.inj hexec
    rfl

/-! ## The call -/

/-- The caller of `msg_sendrecv` stays deferred in every continuation in which
nobody responds to the message, and a response resumes it and posts nothing,
or has no effect because the message was not delivered yet. -/
def Synchronous (s : State) (t q m : Nat) : Prop :=
  (∀ ops s', Run FineStep s ops s' → (∀ t', Op.respond t' q m ∉ ops) →
    s'.tasks t = .sending q m) ∧
  (∀ ops s', Run FineStep s ops s' → s'.tasks t = .sending q m →
    ∀ t' s'', FineStep s' (.respond t' q m) s'' →
      (s'.place m ≠ .held q ∧ s'' = s') ∨
      (s'.place m = .held q ∧ s''.tasks t = .running ∧ s''.resumes t = (q, m) :: s'.resumes t ∧
        s''.tasks t' = .running ∧
        ∀ q', (s''.queues q').messages = (s'.queues q').messages ∧ s''.sent q' = s'.sent q'))

theorem KernelOk.synchronous {s : State} {t q m : Nat} (h : KernelOk none s)
    (ht : s.tasks t = .sending q m) : Synchronous s t q m := by
  have hok : ∀ ops s', Run FineStep s ops s' → KernelOk none s' := fun ops s' hrun =>
    hrun.invariant h fun _ _ _ h hstep => h.step hstep
  refine ⟨?_, ?_⟩
  · intro ops s' hrun
    -- The invariant comes along so that each step can use the account of the
    -- state it starts from.
    induction hrun with
    | nil => exact fun _ => ht
    | snoc hrun hstep ih =>
      intro hno
      refine (hok _ _ hrun).sending_step (ih fun t' hmem => ?_) hstep fun t' heq => ?_
      · exact hno t' (List.mem_append_left _ hmem)
      · exact hno t' (by simp [heq])
  · intro ops s' hrun ht' t' s'' hstep
    rcases (hok ops s' hrun).respond_cases ht' hstep with hsame | ⟨mp, hplace, rfl⟩
    · exact Or.inl hsame
    · have hne : t' ≠ t := by
        rintro rfl
        exact absurd (ht'.symm.trans hstep.1.1) (by simp)
      refine Or.inr ⟨hplace, update_self _ _ _, update_self _ _ _, ?_, ?_⟩
      · exact (update_of_ne hne _ _).trans hstep.1.1
      · intro q'
        refine ⟨?_, rfl⟩
        by_cases hq : q' = q
        · subst hq
          simp [State.resume, State.setTask, State.setPlace]
        · exact congrArg _ (update_of_ne hq _ _)

/-- In every run, a call of `msg_sendrecv` is synchronous exactly if the
pseudo-sync bit of its message is clear. -/
theorem synchronous_of_run {msgs : Nat → Message} {ops : List Op} {s s' : State} {t q m : Nat}
    (hrun : Run FineStep (State.init msgs) ops s) (hcall : Step s (.sendrecv t q m) s')
    (htype : (s.msgs m).type < MSG_FIRST_SYS_TYPE) :
    Synchronous s' t q m ↔ (s.msgs m).pseudosync = false := by
  have hok := KernelOk.of_run hrun
  have hnot := hok.objects.not_mem_waiting (t := t) (by simp [hcall.1.1])
  have hexec : s.msgSendRecv t q m none = s' := Option.some.inj hcall.2
  refine ⟨fun hsync => ?_, fun hpseudo => ?_⟩
  · by_contra hset
    have ht := hsync.1 [] s' .nil (by simp)
    rw [← hexec, State.msgSendRecv_pseudo t q htype (by simpa using hset), State.hand_tasks] at ht
    · exact absurd (hcall.1.1.symm.trans ht) (by simp)
    · exact hnot q
  · have hok' : KernelOk none s' := hok.step ⟨hcall, fun _ => hpseudo⟩
    apply hok'.synchronous
    rw [← hexec, State.msgSendRecv_sync t q htype hpseudo]
    apply (State.hand_tasks _ _ _).trans
    · exact update_self _ _ _
    · exact hnot q

/-- The first call of task 0 is synchronous. -/
theorem synchronous_of_run_first_call :
    Synchronous ((State.init userMessages).msgSendRecv 0 0 0 none) 0 0 0 :=
  (synchronous_of_run .nil ⟨⟨rfl, rfl⟩, rfl⟩ (by decide)).mpr rfl

/-- The call of task 0 with a message that `msg_sendrecv_noblk` has used returns
before anybody could respond. -/
theorem returns_before_response :
    ∃ s s', Run FineStep (State.init userMessages) pseudoSyncRound s ∧
      Step s (.sendrecv 0 0 0) s' ∧ (s.msgs 0).type < MSG_FIRST_SYS_TYPE ∧
      s'.tasks 0 = .running ∧ ¬ Synchronous s' 0 0 0 := by
  refine ⟨_, _, .cons ⟨⟨⟨rfl, rfl⟩, rfl⟩, trivial⟩ (.cons ⟨⟨rfl, rfl⟩, trivial⟩
    (.cons ⟨⟨rfl, rfl⟩, ?_⟩ (.cons ⟨⟨⟨0, 1, rfl⟩, rfl⟩, trivial⟩
      (.cons ⟨⟨rfl, rfl⟩, trivial⟩ .nil)))), ⟨⟨rfl, rfl⟩, rfl⟩, ?_, rfl, ?_⟩
  · rintro mp ⟨⟩
    rfl
  · show 0 < MSG_FIRST_SYS_TYPE
    decide
  · intro hsync
    have hsending : TaskState.running = .sending 0 0 := hsync.1 [] _ .nil (by simp)
    exact TaskState.noConfusion hsending

end Hostboot.Msg
