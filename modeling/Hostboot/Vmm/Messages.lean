import Mathlib
import Hostboot.Lib.Lists
import Hostboot.Vmm.Pages

/-!
# The outstanding requests of a block

`sendMessage` sends one message for each key that has something pending, and
`recvMessage` answers everything pending for the key.  The state of a handler
is read by key: `waiting` are the pending objects, `inFlight` the messages on
their way, and `records` the pages being written out.

`MsgsOk k` is what holds of them: a key has one message on its way as long as
something is pending for it, and the page of a pending read is not present and
is the page named in the message.  The loop of `recvMessage` has two rules, one
for a property that each round keeps and one that also says that the loop
returns.
-/

namespace Hostboot.Vmm

open Hostboot.Lib List

namespace Kernel

/-! ## The lists by key -/

/-- What is pending for a key of a handler, newest first. -/
def waiting (k : Kernel) (type : MsgType) (key : Nat) : List Pending :=
  (k.ivPending type).filter fun mhp => mhp.key = key

/-- The messages of a handler that are on their way for a key. -/
def inFlight (k : Kernel) (type : MsgType) (key : Nat) : List Message :=
  k.messages.filter fun m => m.type = type ∧ m.key = key

/-- The pages being written out for a key, newest first. -/
def records (k : Kernel) (key : Nat) : List PageAddrNode :=
  k.ivVa2paList.filter fun node => node.key = key

theorem any_pending_iff (k : Kernel) (type : MsgType) (key : Nat) :
    ((k.ivPending type).any fun mhp => mhp.key = key) = true ↔ k.waiting type key ≠ [] := by
  rw [waiting, ne_eq, filter_eq_nil_iff, any_eq_true]
  push Not
  rfl

theorem waiting_sendMessage (k : Kernel) (type type' : MsgType) (key key' data : Nat)
    (task : Option Nat) :
    (k.sendMessage type key data task).waiting type' key'
      = if type' = type ∧ key' = key then ⟨key, task⟩ :: k.waiting type key
        else k.waiting type' key' := by
  by_cases htype : type' = type
  · subst htype
    by_cases hkey : key' = key
    · subst hkey
      simp [waiting, sendMessage]
    · simp [waiting, sendMessage, hkey, Ne.symm hkey]
  · simp [waiting, sendMessage, htype]

theorem inFlight_sendMessage (k : Kernel) (type type' : MsgType) (key key' data : Nat)
    (task : Option Nat) :
    (k.sendMessage type key data task).inFlight type' key'
      = if type' = type ∧ key' = key ∧ k.waiting type key = [] then
          k.inFlight type key ++ [⟨type, key, data⟩]
        else k.inFlight type' key' := by
  by_cases hwaiting : k.waiting type key = []
  · have hany : ¬ ((k.ivPending type).any fun mhp => mhp.key = key) = true := by
      rw [any_pending_iff]
      exact not_not.mpr hwaiting
    have hmessages : (k.sendMessage type key data task).messages
        = k.messages ++ [⟨type, key, data⟩] := if_neg hany
    rw [inFlight, hmessages, filter_append]
    by_cases hsame : type' = type ∧ key' = key
    · obtain ⟨rfl, rfl⟩ := hsame
      simp [inFlight, hwaiting]
    · have hno : ¬ (type = type' ∧ key = key') := fun h => hsame ⟨h.1.symm, h.2.symm⟩
      rw [if_neg fun h => hsame ⟨h.1, h.2.1⟩]
      simp [inFlight, hno]
  · have hmessages : (k.sendMessage type key data task).messages = k.messages :=
      if_pos ((k.any_pending_iff type key).mpr hwaiting)
    rw [inFlight, hmessages, if_neg fun h => hwaiting h.2.2]
    rfl

theorem waiting_writeOut (k : Kernel) (i : Nat) (task : Option Nat) (type : MsgType)
    (key : Nat) :
    (k.writeOut i task).waiting type key
      = if type = .write ∧ key = i then ⟨i, task⟩ :: k.waiting .write i
        else k.waiting type key :=
  waiting_sendMessage _ .write type i key _ task

theorem records_writeOut (k : Kernel) (i : Nat) (task : Option Nat) (key : Nat) :
    (k.writeOut i task).records key
      = if key = i then ⟨i, (k.ivPtes i).page⟩ :: k.records i else k.records key := by
  change (⟨i, (k.ivPtes i).page⟩ :: k.ivVa2paList).filter (fun node => node.key = key) = _
  split_ifs with hi
  · subst hi
    simp [records]
  · simp [records, Ne.symm hi]

/-! ## The loop of `recvMessage` -/

section Loop

variable {type : MsgType} {key rc : Nat}

theorem recvLoop_invariant {P : List Pending → Kernel → Prop}
    (hround : ∀ mhp rest k k', P (mhp :: rest) k → k.recvPending type key rc mhp = some k' →
      P rest k')
    {l : List Pending} {k k' : Kernel} (h : P l k) (hloop : recvLoop type key rc l k = some k') :
    P [] k' := by
  induction l generalizing k with
  | nil =>
    cases hloop
    exact h
  | cons mhp rest ih =>
    rw [recvLoop, Option.bind_eq_some_iff] at hloop
    obtain ⟨k1, hstep, hrest⟩ := hloop
    exact ih (hround mhp rest k k1 h hstep) hrest

/-- If a property lets each round return and each round keeps it, the loop
returns. -/
theorem recvLoop_returns {P : List Pending → Kernel → Prop}
    (hround : ∀ mhp rest k, P (mhp :: rest) k →
      ∃ k', k.recvPending type key rc mhp = some k' ∧ P rest k')
    {l : List Pending} {k : Kernel} (h : P l k) :
    ∃ k', recvLoop type key rc l k = some k' ∧ P [] k' := by
  induction l generalizing k with
  | nil => exact ⟨k, rfl, h⟩
  | cons mhp rest ih =>
    obtain ⟨k1, hstep, hP⟩ := hround mhp rest k h
    obtain ⟨k', hrest, hnil⟩ := ih hP
    refine ⟨k', ?_, hnil⟩
    rw [recvLoop, hstep]
    exact hrest

end Loop

end Kernel

namespace Kernel

/-- The result of a successful write response, and the list of counts after
it. -/
def counted (k : Kernel) (key : Nat) (task : Option Nat) : HandleResult × List TaskMsgNode :=
  countMessage (k.completeRemoval key).1 (k.completeRemoval key).2.ivMsgGrpList task

/-- The state after a successful write response. -/
def written (k : Kernel) (key : Nat) (task : Option Nat) : Kernel :=
  { (k.completeRemoval key).2 with ivMsgGrpList := (k.counted key task).2 }

end Kernel

/-- What one round of the loop can do. -/
inductive Received (key rc : Nat) (mhp : Pending) (k : Kernel) : MsgType → Kernel → Prop
  | error (type : MsgType) : rc ≠ 0 →
      Received key rc mhp k type (k.settle type rc .unhandledRc mhp)
  | attached : rc = 0 →
      Received key rc mhp k .read ((k.attached key).settle .read rc .success mhp)
  | written : rc = 0 →
      Received key rc mhp k .write
        ((k.written key mhp.task).settle .write rc (k.counted key mhp.task).1 mhp)

namespace Kernel

variable {type : MsgType} {key rc : Nat} {mhp : Pending} {k k' : Kernel}

theorem attachSPTE_eq_some (h : k.attachSPTE key = some k') : k' = k.attached key := by
  rw [attachSPTE, mapPage, addEntry] at h
  split at h
  · simp only [Option.some.injEq] at h
    rw [← h]
    simp [attached, setPte, ShadowPTE.entry, ShadowPTE.mapWritable]
  · exact absurd h (by simp)

theorem recvPending_cases (h : k.recvPending type key rc mhp = some k') :
    Received key rc mhp k type k' := by
  rw [recvPending, Option.map_eq_some_iff] at h
  obtain ⟨⟨result, k1⟩, hresponse, rfl⟩ := h
  by_cases hrc : rc = 0
  · cases type with
    | read =>
      rw [handleResponse, handleReadResponse, if_neg (not_not.mpr hrc),
        Option.map_eq_some_iff] at hresponse
      obtain ⟨k2, hattach, heq⟩ := hresponse
      simp only [Prod.mk.injEq] at heq
      obtain ⟨rfl, rfl⟩ := heq
      rw [attachSPTE_eq_some hattach]
      exact .attached hrc
    | write =>
      rw [handleResponse, handleWriteResponse, if_neg (not_not.mpr hrc),
        Option.some.injEq] at hresponse
      have heq : (result, k1) = ((k.counted key mhp.task).1, k.written key mhp.task) :=
        hresponse.symm
      rw [heq]
      exact .written hrc
  · have heq : (result, k1) = (HandleResult.unhandledRc, k) := by
      cases type with
      | read =>
        rw [handleResponse, handleReadResponse, if_pos hrc, Option.some.injEq] at hresponse
        exact hresponse.symm
      | write =>
        rw [handleResponse, handleWriteResponse, if_pos hrc, Option.some.injEq] at hresponse
        exact hresponse.symm
    simp only [Prod.mk.injEq] at heq
    obtain ⟨rfl, rfl⟩ := heq
    exact .error type hrc

end Kernel

/-! ## What a response leaves alone -/

/-- What no response changes. -/
structure Unchanged (k k' : Kernel) : Prop where
  pages : k'.ivPages = k.ivPages
  hdlrs : k'.ivMsgHdlrs = k.ivMsgHdlrs
  messages : k'.messages = k.messages
  memory : k'.memory = k.memory
  removed : k'.removed = k.removed
  modified : k'.modified = k.modified
  handed : k'.handed = k.handed
  failed : k'.failed = k.failed

theorem Unchanged.refl (k : Kernel) : Unchanged k k :=
  ⟨rfl, rfl, rfl, rfl, rfl, rfl, rfl, rfl⟩

theorem Unchanged.trans {k k1 k2 : Kernel} (h : Unchanged k k1) (h' : Unchanged k1 k2) :
    Unchanged k k2 :=
  ⟨h'.pages.trans h.pages, h'.hdlrs.trans h.hdlrs, h'.messages.trans h.messages,
    h'.memory.trans h.memory, h'.removed.trans h.removed, h'.modified.trans h.modified,
    h'.handed.trans h.handed, h'.failed.trans h.failed⟩

namespace Received

variable {type : MsgType} {key rc : Nat} {mhp : Pending} {k k' : Kernel}

theorem unchanged_completeRemoval (k : Kernel) (key : Nat) :
    Unchanged k (k.completeRemoval key).2 ∧
      (k.completeRemoval key).2.ivPending = k.ivPending ∧
      (k.completeRemoval key).2.ivPtes = k.ivPtes := by
  rw [Kernel.completeRemoval]
  split
  · exact ⟨⟨rfl, rfl, rfl, rfl, rfl, rfl, rfl, rfl⟩, rfl, rfl⟩
  · exact ⟨.refl k, rfl, rfl⟩

theorem unchanged (h : Received key rc mhp k type k') : Unchanged k k' := by
  cases h with
  | error => exact ⟨rfl, rfl, rfl, rfl, rfl, rfl, rfl, rfl⟩
  | attached => exact ⟨rfl, rfl, rfl, rfl, rfl, rfl, rfl, rfl⟩
  | written =>
    obtain ⟨h1, h2, h3, h4, h5, h6, h7, h8⟩ := (unchanged_completeRemoval k key).1
    exact ⟨h1, h2, h3, h4, h5, h6, h7, h8⟩

theorem ivPending (h : Received key rc mhp k type k') :
    k'.ivPending = Function.update k.ivPending type ((k.ivPending type).erase mhp) := by
  cases h with
  | error => rfl
  | attached => rfl
  | written =>
    rw [Kernel.settle, Kernel.written]
    dsimp only
    rw [(unchanged_completeRemoval k key).2.1]

theorem ivPtes (h : Received key rc mhp k type k') :
    k'.ivPtes = if type = .read ∧ rc = 0 then (k.attached key).ivPtes else k.ivPtes := by
  cases h with
  | error _ hrc => exact (if_neg fun hno => hrc hno.2).symm
  | attached hrc => exact (if_pos ⟨rfl, hrc⟩).symm
  | written =>
    rw [if_neg fun hno => absurd hno.1 (by simp)]
    exact (unchanged_completeRemoval k key).2.2

theorem waiting_self (h : Received key rc mhp k type k') {rest : List Pending}
    (hrest : k.waiting type key = mhp :: rest) : k'.waiting type key = rest := by
  rw [Kernel.waiting, h.ivPending, Function.update_self]
  exact Lists.filter_erase_head hrest

theorem waiting_of_ne (h : Received key rc mhp k type k') (hkey : mhp.key = key)
    {type' : MsgType} {key' : Nat} (hne : ¬ (type' = type ∧ key' = key)) :
    k'.waiting type' key' = k.waiting type' key' := by
  rw [Kernel.waiting, h.ivPending]
  by_cases htype : type' = type
  · subst htype
    rw [Function.update_self, Lists.filter_erase_of_not]
    · rfl
    · rw [decide_eq_false_iff_not, hkey]
      exact fun heq => hne ⟨rfl, heq.symm⟩
  · rw [Function.update_of_ne htype]
    rfl

end Received

/-- What `recvMessage` does for a key with something pending. -/
structure Responded (type : MsgType) (key rc : Nat) (k k' : Kernel) : Prop where
  unchanged : Unchanged k k'
  answered : k'.waiting type key = []
  others : ∀ type' key', ¬ (type' = type ∧ key' = key) →
    k'.waiting type' key' = k.waiting type' key'
  ptes : k'.ivPtes = if type = .read ∧ rc = 0 then (k.attached key).ivPtes else k.ivPtes

namespace Kernel

variable {type : MsgType} {key rc : Nat} {k k' : Kernel}

theorem key_of_waiting {mhp : Pending} (h : mhp ∈ k.waiting type key) : mhp.key = key := by
  simpa using (mem_filter.mp h).2

theorem recvMessage_responded (hwaiting : k.waiting type key ≠ [])
    (h : k.recvMessage type key rc = some k') : Responded type key rc k k' := by
  -- A round of the loop leaves what is still to be answered; before the first
  -- round the entries are those of `k`, and after it the page may be attached.
  have hinv : Unchanged k k' ∧ k'.waiting type key = [] ∧
      (∀ type' key', ¬ (type' = type ∧ key' = key) →
        k'.waiting type' key' = k.waiting type' key') ∧
      ((([] : List Pending) = k.waiting type key ∧ k'.ivPtes = k.ivPtes) ∨
        k'.ivPtes = if type = .read ∧ rc = 0 then (k.attached key).ivPtes else k.ivPtes) := by
    refine recvLoop_invariant
      (P := fun rest k1 => Unchanged k k1 ∧ k1.waiting type key = rest ∧
        (∀ type' key', ¬ (type' = type ∧ key' = key) →
          k1.waiting type' key' = k.waiting type' key') ∧
        ((rest = k.waiting type key ∧ k1.ivPtes = k.ivPtes) ∨
          k1.ivPtes = if type = .read ∧ rc = 0 then (k.attached key).ivPtes else k.ivPtes))
      ?_ ⟨.refl k, rfl, fun _ _ _ => rfl, Or.inl ⟨rfl, rfl⟩⟩ h
    rintro mhp rest k1 k2 ⟨hsame, hrest, hothers, hptes⟩ hround
    have hr := recvPending_cases hround
    have hkey : mhp.key = key := key_of_waiting (hrest ▸ mem_cons_self)
    refine ⟨hsame.trans hr.unchanged, hr.waiting_self hrest, ?_, Or.inr ?_⟩
    · intro type' key' hne
      rw [hr.waiting_of_ne hkey hne]
      exact hothers type' key' hne
    · rw [hr.ivPtes]
      by_cases hread : type = .read ∧ rc = 0
      · rw [if_pos hread, if_pos hread]
        rcases hptes with ⟨-, hptes⟩ | hptes
        · simp only [attached, setPte, hptes]
        · rw [if_pos hread] at hptes
          simp only [attached, setPte] at hptes ⊢
          rw [hptes]
          simp
      · rw [if_neg hread, if_neg hread]
        rcases hptes with ⟨-, hptes⟩ | hptes
        · exact hptes
        · rw [if_neg hread] at hptes
          exact hptes
  obtain ⟨h1, h2, h3, h4⟩ := hinv
  refine ⟨h1, h2, h3, ?_⟩
  rcases h4 with ⟨hnil, -⟩ | h4
  · exact absurd hnil.symm hwaiting
  · exact h4

end Kernel

/-! ## One message for each key -/

/-- A key with something pending has one message on its way, and the page of a
pending read is not present and is named in the message. -/
structure MsgsOk (k : Kernel) : Prop where
  one : ∀ type key, (k.inFlight type key).length = if k.waiting type key = [] then 0 else 1
  read : ∀ i, k.waiting .read i ≠ [] →
    i < k.ivPages ∧ (k.ivPtes i).present = false ∧ (k.ivPtes i).page ≠ 0
  data : ∀ i, ∀ m ∈ k.inFlight .read i, m.data = (k.ivPtes i).page
  hdlrs : k.ivMsgHdlrs = false → ∀ type key, k.waiting type key = []

namespace MsgsOk

variable {k k' : Kernel} {type : MsgType} {i key data : Nat} {task : Option Nat}

/-- The entries of the shadow page table count only where a read is pending. -/
theorem congr (h : MsgsOk k) (h1 : k'.messages = k.messages) (h2 : k'.ivPending = k.ivPending)
    (h3 : k'.ivPages = k.ivPages) (h4 : k'.ivMsgHdlrs = k.ivMsgHdlrs)
    (h5 : ∀ i, k.waiting .read i ≠ [] →
      (k'.ivPtes i).present = (k.ivPtes i).present ∧ (k'.ivPtes i).page = (k.ivPtes i).page) :
    MsgsOk k' := by
  have hw : ∀ type key, k'.waiting type key = k.waiting type key := by
    intro type key
    rw [Kernel.waiting, h2]
    rfl
  have hf : ∀ type key, k'.inFlight type key = k.inFlight type key := by
    intro type key
    rw [Kernel.inFlight, h1]
    rfl
  refine ⟨?_, ?_, ?_, ?_⟩
  · intro type key
    rw [hw, hf]
    exact h.one type key
  · intro i hi
    rw [hw] at hi
    rw [h3, (h5 i hi).1, (h5 i hi).2]
    exact h.read i hi
  · intro i m hm
    rw [hf] at hm
    have hwaiting : k.waiting .read i ≠ [] := by
      intro hnil
      have hone := h.one .read i
      rw [if_pos hnil, length_eq_zero_iff] at hone
      rw [hone] at hm
      exact absurd hm (by simp)
    rw [(h5 i hwaiting).2]
    exact h.data i m hm
  · intro hno type key
    rw [hw]
    exact h.hdlrs (h4 ▸ hno) type key

theorem waiting_of_present (h : MsgsOk k) (hpresent : (k.ivPtes i).present = true) :
    k.waiting .read i = [] := by
  by_contra hne
  rw [(h.read i hne).2.1] at hpresent
  exact Bool.false_ne_true hpresent

theorem waiting_of_page (h : MsgsOk k) (hpage : (k.ivPtes i).page = 0) :
    k.waiting .read i = [] := by
  by_contra hne
  exact (h.read i hne).2.2 hpage

theorem waiting_of_message (h : MsgsOk k) {m : Message} (hm : m ∈ k.messages) :
    k.waiting m.type m.key ≠ [] := by
  intro hnil
  have hone := h.one m.type m.key
  rw [if_pos hnil, length_eq_zero_iff, Kernel.inFlight, filter_eq_nil_iff] at hone
  exact hone m hm (by simp)

theorem message_of_waiting (h : MsgsOk k) (hwaiting : k.waiting type key ≠ []) :
    ∃ m ∈ k.messages, m.type = type ∧ m.key = key := by
  have hone := h.one type key
  rw [if_neg hwaiting, Kernel.inFlight] at hone
  obtain ⟨m, hm⟩ := exists_mem_of_length_pos (Nat.lt_of_lt_of_eq Nat.one_pos hone.symm)
  obtain ⟨hm, hkey⟩ := mem_filter.mp hm
  exact ⟨m, hm, by simpa using hkey⟩

theorem setPte (h : MsgsOk k) (hi : k.waiting .read i = []) (pte : ShadowPTE) :
    MsgsOk (k.setPte i pte) := by
  refine h.congr rfl rfl rfl rfl ?_
  intro j hj
  have hne : j ≠ i := fun heq => hj (heq ▸ hi)
  simp [Kernel.setPte, hne]

theorem sendMessage (h : MsgsOk k) (hhdlrs : k.ivMsgHdlrs = true)
    (hread : type = .read → key < k.ivPages ∧ (k.ivPtes key).present = false ∧
      (k.ivPtes key).page ≠ 0 ∧ data = (k.ivPtes key).page) :
    MsgsOk (k.sendMessage type key data task) := by
  refine ⟨?_, ?_, ?_, ?_⟩
  · intro type' key'
    rw [k.waiting_sendMessage]
    by_cases hsame : type' = type ∧ key' = key
    · rw [if_pos hsame, if_neg (cons_ne_nil _ _), k.inFlight_sendMessage]
      obtain ⟨rfl, rfl⟩ := hsame
      have hone := h.one type' key'
      by_cases hwaiting : k.waiting type' key' = []
      · rw [if_pos hwaiting] at hone
        rw [if_pos ⟨rfl, rfl, hwaiting⟩, length_append, hone]
        rfl
      · rw [if_neg hwaiting] at hone
        rw [if_neg fun hno => hwaiting hno.2.2, hone]
    · rw [if_neg hsame, k.inFlight_sendMessage, if_neg fun hno => hsame ⟨hno.1, hno.2.1⟩]
      exact h.one type' key'
  · intro i hi
    rw [k.waiting_sendMessage] at hi
    by_cases hsame : MsgType.read = type ∧ i = key
    · obtain ⟨rfl, rfl⟩ := hsame
      obtain ⟨h1, h2, h3, -⟩ := hread rfl
      exact ⟨h1, h2, h3⟩
    · rw [if_neg hsame] at hi
      exact h.read i hi
  · intro i m hm
    rw [k.inFlight_sendMessage] at hm
    by_cases hsame : MsgType.read = type ∧ i = key ∧ k.waiting type key = []
    · rw [if_pos hsame] at hm
      obtain ⟨rfl, rfl, -⟩ := hsame
      rcases mem_append.mp hm with hm | hm
      · exact h.data i m hm
      · rw [mem_singleton.mp hm]
        exact (hread rfl).2.2.2
    · rw [if_neg hsame] at hm
      exact h.data i m hm
  · intro hno
    exact absurd (hhdlrs.symm.trans hno) (by simp)

theorem removal (h : MsgsOk k) (hr : Removal task k k') : MsgsOk k' := by
  cases hr with
  | delEntry i => exact h.congr rfl rfl rfl rfl fun _ _ => ⟨rfl, rfl⟩
  | writeOut i hpresent _ _ hhdlrs =>
    have hset := h.setPte (h.waiting_of_present hpresent)
      { k.ivPtes i with dirty := false, present := false, page := 0 }
    refine MsgsOk.sendMessage ?_ hhdlrs fun hno => absurd hno (by simp)
    exact hset.congr rfl rfl rfl rfl fun _ _ => ⟨rfl, rfl⟩
  | dropPage i hpresent =>
    have hset := h.setPte (h.waiting_of_present hpresent)
      { k.ivPtes i with dirty := false, present := false, page := 0 }
    exact hset.congr rfl rfl rfl rfl fun _ _ => ⟨rfl, rfl⟩

theorem touch (h : MsgsOk k) (i : Nat) (store : Bool) : MsgsOk (k.touch i store) := by
  cases store with
  | false => exact h
  | true =>
    refine h.congr rfl rfl rfl rfl fun j _ => ?_
    by_cases hne : j = i
    · subst hne
      simp [Kernel.touch, Kernel.setPte]
    · simp [Kernel.touch, Kernel.setPte, hne]

theorem resolved {U : Multiset Nat} {t : Nat} (h : MsgsOk k) (hpages : PagesOk U k)
    (hi : i < k.ivPages) (hr : Resolved t i k k') : MsgsOk k' := by
  cases hr with
  | nothing => exact h
  | mapped => exact h.congr rfl rfl rfl rfl fun _ _ => ⟨rfl, rfl⟩
  | requested hpresent hpage hhdlrs =>
    exact h.sendMessage hhdlrs fun _ => ⟨hi, hpresent, hpage, rfl⟩
  | allocated p hpresent hpage hp hhdlrs =>
    have hset : MsgsOk (k.takePage i p) :=
      (h.setPte (h.waiting_of_page hpage) ((k.ivPtes i).setPage p)).congr rfl rfl rfl rfl
        fun _ _ => ⟨rfl, rfl⟩
    refine hset.sendMessage hhdlrs fun _ => ⟨hi, ?_, ?_, rfl⟩
    · simpa [Kernel.takePage, Kernel.setPte, ShadowPTE.setPage] using hpresent
    · have hbound := hpages.bound_of_free hp
      simp only [Kernel.takePage, Kernel.setPte, ShadowPTE.setPage, Function.update_self]
      rw [Nat.mod_eq_of_lt hbound.2]
      omega
  | zeroed p k1 hpresent hpage hp hhdlrs hk1 =>
    subst hk1
    exact h.congr rfl rfl rfl rfl fun j hj => absurd (h.hdlrs hhdlrs .read j) hj

theorem responded {m : Message} {position rc : Nat} {k1 : Kernel} (h : MsgsOk k)
    (hm : k.messages[position]? = some m) (hr : Responded m.type m.key rc k1 k')
    (hk1 : k1.messages = k.messages.eraseIdx position)
    (hpending : k1.ivPending = k.ivPending) (hptes : k1.ivPtes = k.ivPtes)
    (hpages : k1.ivPages = k.ivPages) (hhdlrs : k1.ivMsgHdlrs = k.ivMsgHdlrs) : MsgsOk k' := by
  have hw1 : ∀ type key, k1.waiting type key = k.waiting type key := by
    intro type key
    rw [Kernel.waiting, hpending]
    rfl
  have hflight : ∀ type key, k'.inFlight type key
      = (k.messages.eraseIdx position).filter fun m => m.type = type ∧ m.key = key := by
    intro type key
    rw [Kernel.inFlight, hr.unchanged.messages, hk1]
  have hother : ∀ type key, ¬ (type = m.type ∧ key = m.key) →
      k'.waiting type key = k.waiting type key ∧ k'.inFlight type key = k.inFlight type key := by
    intro type key hne
    refine ⟨(hr.others type key hne).trans (hw1 type key), ?_⟩
    rw [hflight, Lists.filter_eraseIdx_of_not hm]
    · rfl
    · rw [decide_eq_false_iff_not]
      exact fun hno => hne ⟨hno.1.symm, hno.2.symm⟩
  have hgone : k'.inFlight m.type m.key = [] := by
    rw [hflight]
    apply Lists.filter_eraseIdx_of_length hm (by simp)
    have hone := h.one m.type m.key
    rw [Kernel.inFlight] at hone
    rw [hone]
    split <;> omega
  -- A response attaches at most the page of its own key.
  have hentry : ∀ i, (k'.ivPtes i).page = (k.ivPtes i).page ∧
      (¬ (MsgType.read = m.type ∧ i = m.key) → (k'.ivPtes i).present = (k.ivPtes i).present) := by
    intro i
    rw [hr.ptes]
    by_cases hread : m.type = .read ∧ rc = 0
    · rw [if_pos hread, Kernel.attached, Kernel.setPte, hptes]
      by_cases hi : i = m.key
      · subst hi
        simp [hread.1]
      · simp [hi]
    · rw [if_neg hread, hptes]
      exact ⟨rfl, fun _ => rfl⟩
  refine ⟨?_, ?_, ?_, ?_⟩
  · intro type key
    by_cases hsame : type = m.type ∧ key = m.key
    · obtain ⟨rfl, rfl⟩ := hsame
      rw [hgone, if_pos hr.answered]
      rfl
    · rw [(hother type key hsame).1, (hother type key hsame).2]
      exact h.one type key
  · intro i hi
    have hne : ¬ (MsgType.read = m.type ∧ i = m.key) := by
      rintro ⟨htype, rfl⟩
      rw [htype] at hi
      exact hi hr.answered
    rw [(hother .read i hne).1] at hi
    rw [(hentry i).1, (hentry i).2 hne, hr.unchanged.pages, hpages]
    exact h.read i hi
  · intro i m' hm'
    rw [(hentry i).1]
    have hne : ¬ (MsgType.read = m.type ∧ i = m.key) := by
      rintro ⟨htype, rfl⟩
      rw [htype, hgone] at hm'
      exact absurd hm' (by simp)
    rw [(hother .read i hne).2] at hm'
    exact h.data i m' hm'
  · intro hno type key
    rw [hr.unchanged.hdlrs, hhdlrs] at hno
    by_cases hsame : type = m.type ∧ key = m.key
    · rw [hsame.1, hsame.2]
      exact hr.answered
    · rw [(hother type key hsame).1]
      exact h.hdlrs hno type key

end MsgsOk

/-! ## What a step does -/

/-- The pages and the messages of a block are in order. -/
structure BlockOk (U : Multiset Nat) (k : Kernel) : Prop where
  pages : PagesOk U k
  msgs : MsgsOk k

/-- The state in which the message at a position reaches its handler. -/
def Kernel.answer (k : Kernel) (position : Nat) (m : Message) (rc content : Nat) : Kernel :=
  { k.provide m rc content with messages := k.messages.eraseIdx position }

/-- What a step can do. -/
inductive Effect (k : Kernel) : Op → Kernel → Prop
  | unhandled (task i : Nat) (store : Bool) (alloc : Option Nat) :
      Effect k (.fault task i store alloc) k
  | fault (task i : Nat) (store : Bool) (alloc : Option Nat) (k' : Kernel) : i < k.ivPages →
      k.tasks.state task = .running → Resolved task i (k.touch i store) k' →
      Effect k (.fault task i store alloc) k'
  | store (i content p : Nat) : k.pageTable i = some (p, true) →
      Effect k (.store i content)
        { k with
          memory := Function.update k.memory p content
          modified := Function.update k.modified i true }
  | removePages (op : PageRemovalOp) (vaddr size : Nat) (task : Option Nat) (k' : Kernel) :
      (∀ t, task = some t → k.tasks.state t = .running) → Removals task k k' →
      Effect k (.removePages op vaddr size task) k'
  | castOutPages (critical : Bool) (k' : Kernel) : Removals none k k' →
      Effect k (.castOutPages critical) k'
  | dropEntry (i : Nat) (referenced : Bool) :
      Effect k (.dropEntry i referenced) ((k.delEntry i).updateRefCount i referenced)
  | respond (position rc content : Nat) (m : Message) (k' : Kernel) :
      k.messages[position]? = some m →
      (k.answer position m rc content).recvMessage m.type m.key rc = some k' →
      Effect k (.respond position rc content) k'
  | otherAllocate (p : Nat) : p ∈ k.freePages →
      Effect k (.otherAllocate p)
        { k with freePages := k.freePages.erase p, otherPages := p ::ₘ k.otherPages }
  | otherFree (p : Nat) : p ∈ k.otherPages →
      Effect k (.otherFree p)
        { k with freePages := p ::ₘ k.freePages, otherPages := k.otherPages.erase p }
  | otherWrite (p content : Nat) : p ∈ k.freePages + k.otherPages →
      Effect k (.otherWrite p content) { k with memory := Function.update k.memory p content }

namespace BlockOk

variable {U : Multiset Nat} {k k' : Kernel} {op : Op}

theorem init {baseAddr pages : Nat} {msgHdlrs : Bool} {permissions : Nat → ShadowPTE}
    {memory : Nat → Nat} (hnodup : U.Nodup) (hU : ∀ p ∈ U, 0 < p ∧ p < 2 ^ 20) :
    BlockOk U (Kernel.init baseAddr pages msgHdlrs permissions U memory) := by
  refine ⟨⟨hnodup, hU, ?_, ?_, ?_, ?_, ?_⟩, ⟨?_, ?_, ?_, ?_⟩⟩
  · have hspte : (Kernel.init baseAddr pages msgHdlrs permissions U memory).sptePages = 0 := by
      simp [Kernel.sptePages, Kernel.init, Buckets.content, ShadowPTE.pages]
    rw [hspte]
    simp [Kernel.init, Kernel.recordPages]
  · exact fun _ _ => ⟨rfl, rfl⟩
  · exact fun _ hno => absurd hno (by simp [Kernel.init])
  · exact fun _ _ _ => rfl
  · exact fun _ _ _ hno => absurd hno (by simp [Kernel.init])
  · exact fun _ _ => rfl
  · exact fun _ hno => absurd rfl hno
  · exact fun _ _ hno => absurd hno (by simp [Kernel.inFlight, Kernel.init])
  · exact fun _ _ _ => rfl

theorem recvPending {type : MsgType} {key rc : Nat} {mhp : Pending} (h : PagesOk U k)
    (hread : type = .read → key < k.ivPages ∧ (k.ivPtes key).page ≠ 0) :
    ∃ k', k.recvPending type key rc mhp = some k' ∧ PagesOk U k' ∧
      (type = .read → key < k'.ivPages ∧ (k'.ivPtes key).page ≠ 0) := by
  by_cases hrc : rc = 0
  · subst hrc
    cases type with
    | read =>
      obtain ⟨hi, hpage⟩ := hread rfl
      obtain ⟨hattach, hok⟩ := h.attachSPTE hi hpage
      refine ⟨(k.attached key).settle .read 0 .success mhp, ?_,
        hok.congr rfl rfl rfl rfl rfl rfl rfl, fun _ => ⟨hi, ?_⟩⟩
      · rw [Kernel.recvPending, Kernel.handleResponse, Kernel.handleReadResponse,
          if_neg (not_not.mpr rfl), hattach]
        rfl
      · simpa [Kernel.settle, Kernel.attached, Kernel.setPte] using hpage
    | write =>
      refine ⟨(k.written key mhp.task).settle .write 0 (k.counted key mhp.task).1 mhp, rfl, ?_,
        fun hno => absurd hno (by simp)⟩
      exact (h.completeRemoval key).congr rfl rfl rfl rfl rfl rfl rfl
  · refine ⟨k.settle type rc .unhandledRc mhp, ?_, h.congr rfl rfl rfl rfl rfl rfl rfl, hread⟩
    cases type with
    | read => simp [Kernel.recvPending, Kernel.handleResponse, Kernel.handleReadResponse, hrc]
    | write => simp [Kernel.recvPending, Kernel.handleResponse, Kernel.handleWriteResponse, hrc]

/-- The handler of an answered message returns, and no page gets lost. -/
theorem recvMessage (h : BlockOk U k) {position : Nat} {m : Message}
    (hm : k.messages[position]? = some m) (rc content : Nat) :
    ∃ k', (k.answer position m rc content).recvMessage m.type m.key rc = some k' ∧
      PagesOk U k' := by
  have hwaiting := h.msgs.waiting_of_message (mem_of_getElem? hm)
  have hpage : m.type = .read → m.key < k.ivPages ∧ (k.ivPtes m.key).page ≠ 0 := by
    intro htype
    rw [htype] at hwaiting
    have hread := h.msgs.read m.key hwaiting
    exact ⟨hread.1, hread.2.2⟩
  have hloop : ∃ k', (k.answer position m rc content).recvMessage m.type m.key rc = some k' ∧
      PagesOk U k' ∧ (m.type = .read → m.key < k'.ivPages ∧ (k'.ivPtes m.key).page ≠ 0) :=
    Kernel.recvLoop_returns
      (P := fun _ k1 => PagesOk U k1 ∧
        (m.type = .read → m.key < k1.ivPages ∧ (k1.ivPtes m.key).page ≠ 0))
      (fun mhp rest k1 hP => recvPending hP.1 hP.2)
      ⟨h.pages.congr rfl rfl rfl rfl rfl rfl rfl, hpage⟩
  obtain ⟨k', hrecv, hok, -⟩ := hloop
  exact ⟨k', hrecv, hok⟩

theorem responded (h : BlockOk U k) {position rc content : Nat} {m : Message}
    (hm : k.messages[position]? = some m)
    (hrecv : (k.answer position m rc content).recvMessage m.type m.key rc = some k') :
    Responded m.type m.key rc (k.answer position m rc content) k' := by
  apply Kernel.recvMessage_responded _ hrecv
  exact h.msgs.waiting_of_message (mem_of_getElem? hm)

theorem exec (h : BlockOk U k) (hop : op.Allowed k) :
    ∃ k', k.exec op = some k' ∧ Effect k op k' := by
  cases op with
  | fault task i store alloc =>
    rcases k.handlePageFault_cases task i store alloc with hnone | ⟨hi, heq⟩
    · exact ⟨k, hnone, .unhandled task i store alloc⟩
    · have hi' : i < (k.touch i store).ivPages := by
        cases store <;> exact hi
      have hfree : (k.touch i store).freePages = k.freePages := by
        cases store <;> rfl
      obtain ⟨k', hexec, hr⟩ : ∃ k', (k.touch i store).resolveFault task i alloc = some k' ∧
          Resolved task i (k.touch i store) k' :=
        (h.pages.touch hi store).resolveFault hi' fun p hp => hfree ▸ hop.2 p hp
      exact ⟨k', heq.trans hexec, .fault task i store alloc k' hi hop.1 hr⟩
  | store i content =>
    obtain ⟨p, hp⟩ := hop
    refine ⟨_, ?_, .store i content p hp⟩
    simp [Kernel.exec, hp]
  | removePages op vaddr size task =>
    exact ⟨_, rfl, .removePages op vaddr size task _ hop (k.removePages_removals op vaddr size task)⟩
  | castOutPages critical => exact ⟨_, rfl, .castOutPages critical _ (k.castOutPages_removals critical)⟩
  | dropEntry i referenced => exact ⟨_, rfl, .dropEntry i referenced⟩
  | respond position rc content =>
    obtain ⟨m, hm⟩ : ∃ m, k.messages[position]? = some m :=
      ⟨_, getElem?_eq_getElem hop⟩
    obtain ⟨k', hrecv, -⟩ := h.recvMessage hm rc content
    refine ⟨k', ?_, .respond position rc content m k' hm hrecv⟩
    rw [Kernel.exec, hm]
    exact hrecv
  | otherAllocate p => exact ⟨_, rfl, .otherAllocate p hop⟩
  | otherFree p => exact ⟨_, rfl, .otherFree p hop⟩
  | otherWrite p content => exact ⟨_, rfl, .otherWrite p content hop⟩

theorem effect_of_step (h : BlockOk U k) (hstep : Step k op k') : Effect k op k' := by
  obtain ⟨k1, hexec, heffect⟩ := h.exec hstep.1
  rw [hstep.2, Option.some.injEq] at hexec
  rw [hexec]
  exact heffect

theorem removals (h : BlockOk U k) {task : Option Nat} (hr : Removals task k k') :
    BlockOk U k' := by
  induction hr with
  | refl => exact h
  | tail _ hlast ih => exact ⟨ih.pages.removal hlast, ih.msgs.removal hlast⟩

theorem move (h : BlockOk U k)
    (h1 : k'.freePages + k'.otherPages = k.freePages + k.otherPages) (h2 : k'.ivPtes = k.ivPtes)
    (h3 : k'.pageTable = k.pageTable) (h4 : k'.ivVa2paList = k.ivVa2paList)
    (h5 : k'.ivPages = k.ivPages) (h6 : k'.ivMsgHdlrs = k.ivMsgHdlrs)
    (h7 : k'.messages = k.messages) (h8 : k'.ivPending = k.ivPending) : BlockOk U k' := by
  refine ⟨⟨h.pages.nodup, h.pages.page, ?_, ?_, ?_, ?_, ?_⟩, ?_⟩
  · rw [h1, Kernel.sptePages, Kernel.recordPages, h2, h4, h5]
    exact h.pages.partition
  · rw [h2, h5]
    exact h.pages.outside
  · rw [h2]
    exact h.pages.present
  · rw [h2, h6]
    exact h.pages.idle
  · rw [h2, h3]
    exact h.pages.mapped
  · exact h.msgs.congr h7 h8 h5 h6 fun i _ => by rw [h2]; exact ⟨rfl, rfl⟩

theorem dropEntry (h : BlockOk U k) (i : Nat) (referenced : Bool) :
    BlockOk U ((k.delEntry i).updateRefCount i referenced) := by
  have hset : i < k.ivPages → ∀ n, BlockOk U
      ((k.delEntry i).setPte i { (k.delEntry i).ivPtes i with lastAccess := n }) := by
    intro hi n
    refine ⟨(h.pages.delEntry i).setPte rfl hi (h.pages.present i) (fun hno => h.pages.idle hno i)
      ?_, ?_⟩
    · intro p w hentry
      simp [Kernel.delEntry] at hentry
    · refine h.msgs.congr rfl rfl rfl rfl fun j _ => ?_
      by_cases hj : j = i
      · subst hj
        simp [Kernel.setPte, Kernel.delEntry]
      · simp [Kernel.setPte, Kernel.delEntry, hj]
  have hdel : BlockOk U (k.delEntry i) :=
    ⟨h.pages.delEntry i, h.msgs.congr rfl rfl rfl rfl fun _ _ => ⟨rfl, rfl⟩⟩
  rw [Kernel.updateRefCount]
  split_ifs with hin
  · exact hset hin 0
  · exact hset hin _
  · exact hdel
  · exact hdel

theorem effect (h : BlockOk U k) (heffect : Effect k op k') : BlockOk U k' := by
  cases heffect with
  | unhandled => exact h
  | fault task i store alloc k' hi hrunning hr =>
    have hi' : i < (k.touch i store).ivPages := by
      cases store <;> exact hi
    have hpages := h.pages.touch hi store
    exact ⟨hpages.resolved hi' hr, (h.msgs.touch i store).resolved hpages hi' hr⟩
  | store => exact h.move rfl rfl rfl rfl rfl rfl rfl rfl
  | removePages op vaddr size task k' _ hr => exact h.removals hr
  | castOutPages critical k' hr => exact h.removals hr
  | dropEntry i referenced => exact h.dropEntry i referenced
  | respond position rc content m k' hm hrecv =>
    obtain ⟨k1, hrecv1, hok⟩ := h.recvMessage hm rc content
    rw [hrecv, Option.some.injEq] at hrecv1
    subst hrecv1
    exact ⟨hok, h.msgs.responded hm (h.responded hm hrecv) rfl rfl rfl rfl rfl⟩
  | otherAllocate p hp =>
    refine h.move ?_ rfl rfl rfl rfl rfl rfl rfl
    rw [Multiset.add_cons, ← Multiset.cons_add, Multiset.cons_erase hp]
  | otherFree p hp =>
    refine h.move ?_ rfl rfl rfl rfl rfl rfl rfl
    rw [Multiset.cons_add, ← Multiset.add_cons, Multiset.cons_erase hp]
  | otherWrite => exact h.move rfl rfl rfl rfl rfl rfl rfl rfl

end BlockOk

end Hostboot.Vmm
