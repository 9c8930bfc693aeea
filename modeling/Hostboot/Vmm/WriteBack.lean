import Mathlib
import Hostboot.Vmm.Ownership

/-!
# Dirty contents reach the provider

A write-tracked block has message handlers and tracks the writes of all its
pages.  Its provider answers the messages in the order it got them.  Then a
virtual page has no write outstanding while it is present: a page that was
written out comes back by a read, and that read was sent after the write.  So
`sendMessage` never finds a write pending for a page that is removed, and the
message of each removal is sent.

`OrderOk` is this part of the invariant.  `ContentsOk` is about the contents:
a page being written out keeps the contents it had when it was removed, and
everything dirty that went back to the page manager was handed to the
provider before.
-/

namespace Hostboot.Vmm

open Hostboot.Lib List
open Function (update update_of_ne update_self)

/-- What holds of the outstanding requests when the messages are answered in
order. -/
structure OrderOk (k : Kernel) : Prop where
  hdlrs : k.ivMsgHdlrs = true
  track : ∀ i, (k.ivPtes i).trackWrite = true
  /-- No write of a virtual page is behind a read of it. -/
  order : k.messages.Pairwise fun m m' => ¬ (m.type = .read ∧ m'.type = .write ∧ m.key = m'.key)
  present : ∀ i, (k.ivPtes i).present = true → k.waiting .write i = []
  single : ∀ i, (k.waiting .write i).length ≤ 1
  newest : ∀ m ∈ k.messages, m.type = .write → (k.records m.key).head? = some ⟨m.key, m.data⟩

/-- What holds of the contents of the pages. -/
structure ContentsOk (k : Kernel) : Prop where
  frozen : ∀ node ∈ k.ivVa2paList, k.memory node.pageAddr = k.removed node.pageAddr
  modified : ∀ i, k.modified i = true → (k.ivPtes i).dirty = true
  handed : ∀ r ∈ k.returned, r.dirty = true → (r.key, r.content) ∈ k.handed

/-! ## The order of the requests -/

namespace OrderOk

variable {U : Multiset Nat} {k k' : Kernel} {task : Option Nat} {i : Nat} {op : Op}

/-- The entries count only by whether the page is present and tracked. -/
theorem congr (h : OrderOk k) (h1 : k'.ivMsgHdlrs = k.ivMsgHdlrs)
    (h2 : ∀ i, (k'.ivPtes i).trackWrite = (k.ivPtes i).trackWrite ∧
      ((k'.ivPtes i).present = true → (k.ivPtes i).present = true))
    (h3 : k'.messages = k.messages) (h4 : k'.ivPending = k.ivPending)
    (h5 : k'.ivVa2paList = k.ivVa2paList) : OrderOk k' := by
  refine ⟨h1.trans h.hdlrs, ?_, ?_, ?_, ?_, ?_⟩
  · intro i
    rw [(h2 i).1]
    exact h.track i
  · rw [h3]
    exact h.order
  · intro i hi
    rw [Kernel.waiting, h4]
    exact h.present i ((h2 i).2 hi)
  · intro i
    rw [Kernel.waiting, h4]
    exact h.single i
  · intro m hm hwrite
    rw [h3] at hm
    rw [Kernel.records, h5]
    exact h.newest m hm hwrite

theorem setPte (h : OrderOk k) {pte : ShadowPTE} (htrack : pte.trackWrite = true)
    (hpresent : pte.present = true → (k.ivPtes i).present = true) : OrderOk (k.setPte i pte) := by
  refine h.congr rfl (fun j => ?_) rfl rfl rfl
  by_cases hj : j = i
  · subst hj
    simp only [Kernel.setPte, update_self]
    exact ⟨htrack.trans (h.track j).symm, hpresent⟩
  · simp [Kernel.setPte, hj]

theorem writeOut (h : OrderOk k) (hok : BlockOk U k) (hpresent : (k.ivPtes i).present = true) :
    OrderOk (k.writeOut i task) := by
  have hnone := h.present i hpresent
  have hmessages : (k.writeOut i task).messages
      = k.messages ++ [⟨.write, i, (k.ivPtes i).page⟩] := by
    apply if_neg
    exact (k.any_pending_iff .write i).not.mpr (not_not.mpr hnone)
  have hrelease : OrderOk
      (k.setPte i { k.ivPtes i with dirty := false, present := false, page := 0 }) :=
    h.setPte (h.track i) fun hno => absurd hno (by simp)
  refine ⟨h.hdlrs, hrelease.track, ?_, ?_, ?_, ?_⟩
  · rw [hmessages, pairwise_append]
    refine ⟨h.order, pairwise_singleton _ _, ?_⟩
    rintro m hm m' hm' ⟨hread, -, hkey⟩
    rw [mem_singleton.mp hm'] at hkey
    have hwaiting := hok.msgs.waiting_of_message hm
    rw [hread, hkey] at hwaiting
    exact hwaiting (hok.msgs.waiting_of_present hpresent)
  · intro j hj
    have hne : j ≠ i := by
      rintro rfl
      simp [Kernel.writeOut, Kernel.sendMessage, Kernel.addVirtAddr, Kernel.releaseSPTE,
        Kernel.setPte] at hj
    rw [k.waiting_writeOut, if_neg fun hno => hne hno.2]
    exact hrelease.present j hj
  · intro j
    rw [k.waiting_writeOut]
    split_ifs with hj
    · rw [hnone]
      exact Nat.le_refl 1
    · exact h.single j
  · intro m hm hwrite
    rw [hmessages, mem_append, mem_singleton] at hm
    rw [k.records_writeOut]
    rcases hm with hm | rfl
    · have hne : m.key ≠ i := by
        intro heq
        have hwaiting := hok.msgs.waiting_of_message hm
        rw [hwrite, heq] at hwaiting
        exact hwaiting hnone
      rw [if_neg hne]
      exact h.newest m hm hwrite
    · rw [if_pos rfl]
      rfl

theorem removal (h : OrderOk k) (hok : BlockOk U k) (hr : Removal task k k') : OrderOk k' := by
  cases hr with
  | delEntry i => exact h.congr rfl (fun _ => ⟨rfl, id⟩) rfl rfl rfl
  | writeOut i hpresent => exact h.writeOut hok hpresent
  | dropPage i =>
    have hset : OrderOk
        (k.setPte i { k.ivPtes i with dirty := false, present := false, page := 0 }) :=
      h.setPte (h.track i) fun hno => absurd hno (by simp)
    exact hset.congr rfl (fun _ => ⟨rfl, id⟩) rfl rfl rfl

theorem touch (h : OrderOk k) (store : Bool) : OrderOk (k.touch i store) := by
  cases store with
  | false => exact h
  | true => exact h.setPte (h.track i) id

theorem requestPage {t : Nat} (h : OrderOk k) : OrderOk (k.requestPage i t) := by
  have hmessages : (k.requestPage i t).messages = k.messages ∨
      (k.requestPage i t).messages = k.messages ++ [⟨.read, i, (k.ivPtes i).page⟩] := by
    by_cases hany : ((k.ivPending .read).any fun mhp => mhp.key = i) = true
    · exact Or.inl (if_pos hany)
    · exact Or.inr (if_neg hany)
  have hwaiting : ∀ j, (k.requestPage i t).waiting .write j = k.waiting .write j := by
    intro j
    rw [Kernel.requestPage, k.waiting_sendMessage, if_neg fun hno => absurd hno.1 (by simp)]
  refine ⟨h.hdlrs, h.track, ?_, ?_, ?_, ?_⟩
  · rcases hmessages with heq | heq
    · rw [heq]
      exact h.order
    · rw [heq, pairwise_append]
      refine ⟨h.order, pairwise_singleton _ _, ?_⟩
      rintro m hm m' hm' ⟨-, hwrite, -⟩
      rw [mem_singleton.mp hm'] at hwrite
      exact absurd hwrite (by simp)
  · intro j hj
    rw [hwaiting]
    exact h.present j hj
  · intro j
    rw [hwaiting]
    exact h.single j
  · intro m hm hwrite
    have hold : m ∈ k.messages := by
      rcases hmessages with heq | heq
      · rw [heq] at hm
        exact hm
      · rw [heq, mem_append, mem_singleton] at hm
        rcases hm with hm | rfl
        · exact hm
        · exact absurd hwrite (by simp)
    exact h.newest m hold hwrite

theorem resolved {t : Nat} (h : OrderOk k) (hr : Resolved t i k k') : OrderOk k' := by
  cases hr with
  | nothing => exact h
  | mapped => exact h.congr rfl (fun _ => ⟨rfl, id⟩) rfl rfl rfl
  | requested => exact h.requestPage
  | allocated p hpresent =>
    have hset : OrderOk (k.setPte i ((k.ivPtes i).setPage p)) := h.setPte (h.track i) id
    have htake : OrderOk (k.takePage i p) := hset.congr rfl (fun _ => ⟨rfl, id⟩) rfl rfl rfl
    exact htake.requestPage
  | zeroed p k1 _ _ _ hhdlrs => exact absurd (h.hdlrs.symm.trans hhdlrs) (by simp)

theorem responded {rc content : Nat} {m : Message} (h : OrderOk k) (hok : BlockOk U k)
    (hm : k.messages[0]? = some m)
    (hrecv : (k.answer 0 m rc content).recvMessage m.type m.key rc = some k') : OrderOk k' := by
  have hr := hok.responded hm hrecv
  obtain ⟨rest, hmessages⟩ : ∃ rest, k.messages = m :: rest := by
    rw [← head?_eq_getElem?] at hm
    exact head?_eq_some_iff.mp hm
  have hrest : k'.messages = rest := by
    rw [hr.unchanged.messages, Kernel.answer, hmessages]
    rfl
  have horder := h.order
  rw [hmessages, pairwise_cons] at horder
  have hwaiting : ∀ j, k'.waiting .write j = [] ∨ k'.waiting .write j = k.waiting .write j := by
    intro j
    by_cases hself : MsgType.write = m.type ∧ j = m.key
    · rw [hself.1, hself.2]
      exact Or.inl hr.answered
    · exact Or.inr (hr.others .write j hself)
  have hpte : ∀ j, (k'.ivPtes j).trackWrite = (k.ivPtes j).trackWrite ∧
      ((k'.ivPtes j).present = true → (k.ivPtes j).present = true ∨
        m.type = .read ∧ j = m.key) := by
    intro j
    rw [hr.ptes]
    split_ifs with hread
    · by_cases hj : j = m.key
      · subst hj
        simp [Kernel.attached, Kernel.setPte, Kernel.answer, Kernel.provide, hread.1]
      · simp [Kernel.attached, Kernel.setPte, Kernel.answer, Kernel.provide, hj]
    · exact ⟨rfl, Or.inl⟩
  refine ⟨hr.unchanged.hdlrs.trans h.hdlrs, ?_, ?_, ?_, ?_, ?_⟩
  · intro j
    rw [(hpte j).1]
    exact h.track j
  · rw [hrest]
    exact horder.2
  · intro j hj
    rcases hwaiting j with hnil | heq
    · exact hnil
    · rw [heq]
      rcases (hpte j).2 hj with hpresent | ⟨hread, hkey⟩
      · exact h.present j hpresent
      · -- The write would be behind the read that was just answered.
        by_contra hne
        obtain ⟨m', hm', hwrite, hkey'⟩ := hok.msgs.message_of_waiting hne
        rw [hmessages, mem_cons] at hm'
        rcases hm' with rfl | hm'
        · rw [hread] at hwrite
          exact absurd hwrite (by simp)
        · exact horder.1 m' hm' ⟨hread, hwrite, hkey.symm.trans hkey'.symm⟩
  · intro j
    rcases hwaiting j with hnil | heq
    · rw [hnil]
      exact Nat.zero_le 1
    · rw [heq]
      exact h.single j
  · intro m' hm' hwrite
    rw [hrest] at hm'
    have hne : ¬ (m.type = .write ∧ rc = 0 ∧ m'.key = m.key) := by
      rintro ⟨htype, -, hkey⟩
      have hone := hok.msgs.one .write m.key
      have htwo : 2 ≤ (k.inFlight .write m.key).length := by
        rw [Kernel.inFlight, hmessages, filter_cons_of_pos (by simp [htype]),
          length_cons]
        have hpos : 0 < (rest.filter fun x => x.type = .write ∧ x.key = m.key).length :=
          length_pos_of_mem (mem_filter.mpr ⟨hm', by simp [hwrite, hkey]⟩)
        omega
      split at hone <;> omega
    rw [Kernel.records_recvMessage hrecv m'.key, if_neg hne]
    exact h.newest m' (hmessages ▸ mem_cons_of_mem m hm') hwrite

end OrderOk

/-! ## The contents -/

namespace Kernel

variable {type : MsgType} {key rc : Nat} {k k' : Kernel}

/-- Only a successful write response touches the lists of the write handler and
gives pages back. -/
theorem recvMessage_quiet (hquiet : ¬ (type = .write ∧ rc = 0))
    (h : k.recvMessage type key rc = some k') :
    k'.ivVa2paList = k.ivVa2paList ∧ k'.returned = k.returned ∧
      k'.ivMsgGrpList = k.ivMsgGrpList := by
  refine recvLoop_invariant
    (P := fun _ k1 => k1.ivVa2paList = k.ivVa2paList ∧ k1.returned = k.returned ∧
      k1.ivMsgGrpList = k.ivMsgGrpList) ?_ ⟨rfl, rfl, rfl⟩ h
  intro mhp rest k1 k2 hP hround
  cases recvPending_cases hround with
  | error => exact hP
  | attached => exact hP
  | written hrc => exact absurd ⟨rfl, hrc⟩ hquiet

end Kernel

theorem PagesOk.ne_of_owns {U : Multiset Nat} {k : Kernel} {p q : Nat} {o o' : Owner}
    (h : PagesOk U k) (hp : k.Owns o p) (hq : k.Owns o' q) (hne : o ≠ o') : p ≠ q := by
  rintro rfl
  exact hne (h.owner_unique (h.mem_of_owns hp) hp hq)

namespace ContentsOk

variable {U : Multiset Nat} {k k' : Kernel} {task : Option Nat} {i p content : Nat} {op : Op}

theorem congr (h : ContentsOk k) (h1 : k'.ivVa2paList = k.ivVa2paList)
    (h2 : k'.memory = k.memory) (h3 : k'.removed = k.removed) (h4 : k'.modified = k.modified)
    (h5 : ∀ i, (k.ivPtes i).dirty = true → (k'.ivPtes i).dirty = true)
    (h6 : k'.returned = k.returned) (h7 : k'.handed = k.handed) : ContentsOk k' := by
  refine ⟨?_, ?_, ?_⟩
  · rw [h1, h2, h3]
    exact h.frozen
  · intro i hi
    rw [h4] at hi
    exact h5 i (h.modified i hi)
  · rw [h6, h7]
    exact h.handed

theorem write (h : ContentsOk k) (hok : BlockOk U k) {o : Owner} (ho : k.Owns o p)
    (hrecord : ∀ position, o ≠ .record position) :
    ContentsOk { k with memory := update k.memory p content } := by
  refine ⟨?_, h.modified, h.handed⟩
  intro node hnode
  obtain ⟨position, hposition⟩ := mem_iff_getElem?.mp hnode
  have hnode' : k.Owns (.record position) node.pageAddr := ⟨node, hposition, rfl⟩
  have hne : node.pageAddr ≠ p := hok.pages.ne_of_owns hnode' ho (Ne.symm (hrecord position))
  simp only [update_of_ne hne]
  exact h.frozen node hnode

theorem modified_of_clean {pte : ShadowPTE} (h : ContentsOk k) {j : Nat}
    (hj : update k.modified i false j = true) :
    (update k.ivPtes i pte j).dirty = true := by
  have hne : j ≠ i := by
    rintro rfl
    simp at hj
  rw [update_of_ne hne] at hj ⊢
  exact h.modified j hj

theorem writeOut (h : ContentsOk k) : ContentsOk (k.writeOut i task) := by
  refine ⟨?_, ?_, h.handed⟩
  · intro node hnode
    change k.memory node.pageAddr
      = update k.removed (k.ivPtes i).page (k.memory (k.ivPtes i).page) node.pageAddr
    by_cases hpage : node.pageAddr = (k.ivPtes i).page
    · rw [hpage, update_self]
    · rw [update_of_ne hpage]
      apply h.frozen
      rcases mem_cons.mp hnode with rfl | hmem
      · exact absurd rfl hpage
      · exact hmem
  · exact fun j hj => h.modified_of_clean hj

theorem dropPage (h : ContentsOk k) (horder : OrderOk k)
    (hdirty : (k.ivPtes i).dirty = true → (k.ivPtes i).trackWrite = false ∨ k.ivMsgHdlrs = false) :
    ContentsOk (k.dropPage i) := by
  have hclean : (k.ivPtes i).dirty = false := by
    by_contra hno
    rw [Bool.not_eq_false] at hno
    rcases hdirty hno with htrack | hhdlrs
    · exact absurd ((horder.track i).symm.trans htrack) (by simp)
    · exact absurd (horder.hdlrs.symm.trans hhdlrs) (by simp)
  have hmodified : k.modified i = false := by
    by_contra hno
    rw [Bool.not_eq_false] at hno
    exact absurd ((h.modified i hno).symm.trans hclean) (by simp)
  refine ⟨h.frozen, ?_, ?_⟩
  · exact fun j hj => h.modified_of_clean hj
  · intro r hr hdirty'
    rcases mem_cons.mp hr with rfl | hr
    · simp [hclean, hmodified] at hdirty'
    · exact h.handed r hr hdirty'

theorem removal (h : ContentsOk k) (horder : OrderOk k) (hr : Removal task k k') :
    ContentsOk k' := by
  cases hr with
  | delEntry i => exact h.congr rfl rfl rfl rfl (fun _ => id) rfl rfl
  | writeOut i => exact h.writeOut
  | dropPage i _ hdirty => exact h.dropPage horder hdirty

theorem touch (h : ContentsOk k) (store : Bool) : ContentsOk (k.touch i store) := by
  cases store with
  | false => exact h
  | true =>
    refine h.congr rfl rfl rfl rfl (fun j hj => ?_) rfl rfl
    by_cases hne : j = i
    · subst hne
      simp [Kernel.touch, Kernel.setPte]
    · simpa [Kernel.touch, Kernel.setPte, hne] using hj

theorem resolved {t : Nat} (h : ContentsOk k) (horder : OrderOk k) (hr : Resolved t i k k') :
    ContentsOk k' := by
  cases hr with
  | nothing => exact h
  | mapped => exact h.congr rfl rfl rfl rfl (fun _ => id) rfl rfl
  | requested => exact h.congr rfl rfl rfl rfl (fun _ => id) rfl rfl
  | allocated p =>
    refine h.congr rfl rfl rfl rfl (fun j hj => ?_) rfl rfl
    change (update k.ivPtes i _ j).dirty = true
    by_cases hne : j = i
    · subst hne
      simpa [ShadowPTE.setPage] using hj
    · rw [update_of_ne hne]
      exact hj
  | zeroed p k1 _ _ _ hhdlrs => exact absurd (horder.hdlrs.symm.trans hhdlrs) (by simp)

theorem responded_quiet {position rc : Nat} {m : Message} (h : ContentsOk k) (hok : BlockOk U k)
    (hm : k.messages[position]? = some m) (hquiet : ¬ (m.type = .write ∧ rc = 0))
    (hrecv : (k.answer position m rc content).recvMessage m.type m.key rc = some k') :
    ContentsOk k' := by
  have hr := hok.responded hm hrecv
  have hanswer : ContentsOk (k.answer position m rc content) := by
    have hhanded : (k.answer position m rc content).handed = k.handed := if_neg hquiet
    cases htype : m.type with
    | read =>
      have hwaiting := hok.msgs.waiting_of_message (mem_of_getElem? hm)
      rw [htype] at hwaiting
      obtain ⟨hi, -, hpage⟩ := hok.msgs.read m.key hwaiting
      have hdata : m.data = (k.ivPtes m.key).page :=
        hok.msgs.data m.key m (mem_filter.mpr ⟨mem_of_getElem? hm, by simp [htype]⟩)
      have howns : k.Owns (.spte m.key) m.data := ⟨hi, hdata ▸ hpage, hdata.symm⟩
      have hwrite : ContentsOk { k with memory := update k.memory m.data content } :=
        h.write hok howns fun _ => by simp
      refine hwrite.congr rfl ?_ rfl rfl (fun _ => id) rfl hhanded
      simp [Kernel.answer, Kernel.provide, htype]
    | write =>
      refine h.congr rfl ?_ rfl rfl (fun _ => id) rfl hhanded
      simp [Kernel.answer, Kernel.provide, htype]
  obtain ⟨hlist, hreturned, -⟩ := Kernel.recvMessage_quiet hquiet hrecv
  refine hanswer.congr hlist hr.unchanged.memory hr.unchanged.removed hr.unchanged.modified ?_
    hreturned hr.unchanged.handed
  intro j hj
  rw [hr.ptes]
  split_ifs
  · by_cases hne : j = m.key
    · subst hne
      simpa [Kernel.attached, Kernel.setPte] using hj
    · simpa [Kernel.attached, Kernel.setPte, hne] using hj
  · exact hj

/-- A response that completes a write: the one pending object of the key gives
the page back that the message named. -/
theorem responded_write {position rc : Nat} {m : Message} (h : ContentsOk k) (hok : BlockOk U k)
    (horder : OrderOk k) (hm : k.messages[position]? = some m) (htype : m.type = .write)
    (hrc : rc = 0)
    (hrecv : (k.answer position m rc content).recvMessage m.type m.key rc = some k') :
    ContentsOk k' := by
  have hmem := mem_of_getElem? hm
  have hwaiting := hok.msgs.waiting_of_message hmem
  rw [htype] at hwaiting
  obtain ⟨mhp, hmhp⟩ : ∃ mhp, k.waiting .write m.key = [mhp] := by
    rw [← length_eq_one_iff]
    have := horder.single m.key
    have := length_pos_of_ne_nil hwaiting
    omega
  have hfind : k.ivVa2paList.find? (fun node => node.key = m.key) = some ⟨m.key, m.data⟩ := by
    rw [← head?_filter]
    exact horder.newest m hmem htype
  have hround : (k.answer position m rc content).recvPending .write m.key rc mhp = some k' := by
    rw [htype] at hrecv
    change Kernel.recvLoop .write m.key rc (k.waiting .write m.key) _ = some k' at hrecv
    rw [hmhp] at hrecv
    simpa [Kernel.recvLoop] using hrecv
  have hcomplete : (k.answer position m rc content).completeRemoval m.key = (.success,
      { (k.answer position m rc content).freePage m.data ⟨m.key, k.removed m.data, true⟩ with
        ivVa2paList := k.ivVa2paList.erase ⟨m.key, m.data⟩ }) := by
    have hfind' : (k.answer position m rc content).ivVa2paList.find?
        (fun node => node.key = m.key) = some ⟨m.key, m.data⟩ := hfind
    rw [Kernel.completeRemoval, hfind']
    rfl
  obtain ⟨hlist, hreturned⟩ : k'.ivVa2paList = k.ivVa2paList.erase ⟨m.key, m.data⟩ ∧
      k'.returned = ⟨m.key, k.removed m.data, true⟩ :: k.returned := by
    cases Kernel.recvPending_cases hround with
    | error _ hno => exact absurd hrc hno
    | written =>
      exact ⟨congrArg (fun c => c.2.ivVa2paList) hcomplete,
        congrArg (fun c => c.2.returned) hcomplete⟩
  have hr := hok.responded hm hrecv
  have hmemory : k'.memory = k.memory := by
    rw [hr.unchanged.memory]
    simp [Kernel.answer, Kernel.provide, htype]
  have hhanded : k'.handed = (m.key, k.memory m.data) :: k.handed :=
    hr.unchanged.handed.trans (if_pos ⟨htype, hrc⟩)
  have hptes : k'.ivPtes = k.ivPtes := by
    rw [hr.ptes, if_neg fun hno => absurd (htype.symm.trans hno.1) (by simp)]
    rfl
  have hremoved : k'.removed = k.removed := hr.unchanged.removed
  have hmodified : k'.modified = k.modified := hr.unchanged.modified
  refine ⟨?_, ?_, ?_⟩
  · intro node hnode
    rw [hlist] at hnode
    rw [hmemory, hremoved]
    exact h.frozen node (mem_of_mem_erase hnode)
  · rw [hmodified, hptes]
    exact h.modified
  · intro r hr hdirty
    rw [hhanded]
    rw [hreturned] at hr
    rcases mem_cons.mp hr with rfl | hr
    · rw [← h.frozen _ (mem_of_find?_eq_some hfind)]
      exact mem_cons_self
    · exact mem_cons_of_mem _ (h.handed r hr hdirty)

end ContentsOk

/-! ## Every run -/

/-- The invariant of a run of a write-tracked block. -/
structure WriteBackOk (U : Multiset Nat) (k : Kernel) : Prop where
  block : BlockOk U k
  order : OrderOk k
  contents : ContentsOk k

namespace WriteBackOk

variable {U : Multiset Nat} {k k' : Kernel} {op : Op}

theorem removals {task : Option Nat} (h : WriteBackOk U k) (hr : Removals task k k') :
    WriteBackOk U k' := by
  induction hr with
  | refl => exact h
  | tail _ hlast ih =>
    exact ⟨⟨ih.block.pages.removal hlast, ih.block.msgs.removal hlast⟩,
      ih.order.removal ih.block hlast, ih.contents.removal ih.order hlast⟩

theorem dropEntry (h : WriteBackOk U k) (i : Nat) (referenced : Bool) :
    WriteBackOk U ((k.delEntry i).updateRefCount i referenced) := by
  have hblock := h.block.dropEntry i referenced
  obtain ⟨ptes, heq, hptes⟩ := (k.delEntry i).updateRefCount_eq i referenced
  rw [heq] at hblock ⊢
  refine ⟨hblock, h.order.congr rfl (fun j => ?_) rfl rfl rfl,
    h.contents.congr rfl rfl rfl rfl (fun j hj => ?_) rfl rfl⟩
  · obtain ⟨n, hn⟩ := hptes j
    dsimp only
    rw [hn]
    exact ⟨rfl, id⟩
  · obtain ⟨n, hn⟩ := hptes j
    dsimp only
    rw [hn]
    exact hj

theorem store (h : WriteBackOk U k) {i p : Nat} (hp : k.pageTable i = some (p, true))
    (content : Nat) :
    ContentsOk { k with
      memory := update k.memory p content
      modified := update k.modified i true } := by
  obtain ⟨hpresent, hpage, hdirty⟩ := h.block.pages.mapped i p true hp
  have howns : k.Owns (.spte i) p :=
    ⟨h.block.pages.lt_of_present hpresent, hpage ▸ h.block.pages.present i hpresent, hpage⟩
  have hwrite : ContentsOk { k with memory := update k.memory p content } :=
    h.contents.write h.block howns fun _ => by simp
  refine ⟨hwrite.frozen, fun j hj => ?_, hwrite.handed⟩
  by_cases hne : j = i
  · rw [hne]
    exact hdirty rfl
  · dsimp only at hj
    rw [update_of_ne hne] at hj
    exact h.contents.modified j hj

/-- A step in which the provider, if it answers, answers its oldest message. -/
theorem effect (h : WriteBackOk U k)
    (horder : ∀ position rc content, op = .respond position rc content → position = 0)
    (heffect : Effect k op k') : WriteBackOk U k' := by
  have hblock := h.block.effect heffect
  cases heffect with
  | unhandled => exact h
  | fault task i store alloc k' _ _ hr =>
    have htouch := h.order.touch (i := i) store
    exact ⟨hblock, htouch.resolved hr, (h.contents.touch store).resolved htouch hr⟩
  | store i content p hp =>
    exact ⟨hblock, h.order.congr rfl (fun _ => ⟨rfl, id⟩) rfl rfl rfl, h.store hp content⟩
  | removePages op vaddr size task k' _ hr => exact h.removals hr
  | castOutPages critical k' hr => exact h.removals hr
  | dropEntry i referenced => exact h.dropEntry i referenced
  | respond position rc content m k' hm hrecv =>
    obtain rfl := horder position rc content rfl
    refine ⟨hblock, h.order.responded h.block hm hrecv, ?_⟩
    by_cases hwrite : m.type = .write ∧ rc = 0
    · exact h.contents.responded_write h.block h.order hm hwrite.1 hwrite.2 hrecv
    · exact h.contents.responded_quiet h.block hm hwrite hrecv
  | otherAllocate p hp =>
    exact ⟨hblock, h.order.congr rfl (fun _ => ⟨rfl, id⟩) rfl rfl rfl,
      h.contents.congr rfl rfl rfl rfl (fun _ => id) rfl rfl⟩
  | otherFree p hp =>
    exact ⟨hblock, h.order.congr rfl (fun _ => ⟨rfl, id⟩) rfl rfl rfl,
      h.contents.congr rfl rfl rfl rfl (fun _ => id) rfl rfl⟩
  | otherWrite p content hp =>
    refine ⟨hblock, h.order.congr rfl (fun _ => ⟨rfl, id⟩) rfl rfl rfl, ?_⟩
    rcases Multiset.mem_add.mp hp with hfree | hother
    · exact h.contents.write h.block (o := .pageManager) hfree fun _ => by simp
    · exact h.contents.write h.block (o := .otherUser) hother fun _ => by simp

end WriteBackOk

/-- A step of a block whose provider answers its messages in order. -/
def OrderedStep (k : Kernel) (op : Op) (k' : Kernel) : Prop :=
  Step k op k' ∧ ∀ position rc content, op = .respond position rc content → position = 0

/-- In every run of a write-tracked block whose provider answers its messages in
order, whenever a page behind a dirty virtual page went back to the page
manager, the contents it had at the removal were handed to the provider in a
write that completed successfully. -/
theorem handed_of_run {U : Multiset Nat} {baseAddr pages : Nat} {permissions : Nat → ShadowPTE}
    {memory : Nat → Nat} {ops : List Op} {k : Kernel} (hnodup : U.Nodup)
    (hU : ∀ p ∈ U, 0 < p ∧ p < 2 ^ 20) (htrack : ∀ i, (permissions i).trackWrite = true)
    (hrun : Run OrderedStep (Kernel.init baseAddr pages true permissions U memory) ops k) :
    ∀ r ∈ k.returned, r.dirty = true → (r.key, r.content) ∈ k.handed := by
  have hinit : WriteBackOk U (Kernel.init baseAddr pages true permissions U memory) := by
    refine ⟨BlockOk.init hnodup hU, ⟨rfl, htrack, List.Pairwise.nil, fun _ _ => rfl, ?_, ?_⟩,
      ⟨?_, ?_, ?_⟩⟩
    · exact fun _ => Nat.zero_le 1
    all_goals simp [Kernel.init]
  have hok : WriteBackOk U k := by
    refine hrun.invariant hinit ?_
    intro s op s' h hstep
    exact h.effect hstep.2 (h.block.effect_of_step hstep.1)
  exact hok.contents.handed

/-- A page is read in, stored to and removed, and its write completes. -/
theorem handed_of_run_one_page :
    ∃ k, Run OrderedStep (onePage 5 true)
        [.fault 0 0 true (some 5), .respond 0 0 7, .store 0 8, .removePages .release 0 4096 none,
          .respond 0 0 0] k ∧
      k.returned = [⟨0, 8, true⟩] ∧ (0, 8) ∈ k.handed := by
  have hrun : ∃ k, Run OrderedStep (onePage 5 true)
        [.fault 0 0 true (some 5), .respond 0 0 7, .store 0 8, .removePages .release 0 4096 none,
          .respond 0 0 0] k ∧ k.returned = [⟨0, 8, true⟩] := by
    refine ⟨_, .cons ⟨⟨⟨rfl, ?_⟩, rfl⟩, ?_⟩ (.cons ⟨⟨Nat.zero_lt_one, rfl⟩, ?_⟩
      (.cons ⟨⟨⟨5, rfl⟩, rfl⟩, ?_⟩ (.cons ⟨⟨fun _ hno => absurd hno (by simp), rfl⟩, ?_⟩
        (.cons ⟨⟨Nat.zero_lt_one, rfl⟩, ?_⟩ .nil)))), rfl⟩
    · simp [onePage, Kernel.init]
    all_goals
      intro position rc content heq
      simp_all
  obtain ⟨k, hrun, hreturned⟩ := hrun
  refine ⟨k, hrun, hreturned, ?_⟩
  exact handed_of_run (by simp) (by simp) (fun _ => rfl) hrun ⟨0, 8, true⟩ (by simp [hreturned]) rfl

end Hostboot.Vmm
