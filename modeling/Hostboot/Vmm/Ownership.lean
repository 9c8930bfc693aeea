import Mathlib
import Hostboot.Lib.Run
import Hostboot.Vmm.Messages

/-!
# Every physical page has one owner

`Owner` lists the places a physical page can be: with the page manager, with
another user of it, in an entry of the shadow page table, or in a record of
the write handler.  The results say that in every state of every run each page
has exactly one owner, that a page in an entry that is not present is being
read in or was left there by a read the provider failed, and that a record of
the write handler stands for an outstanding write unless the provider failed a
write of that virtual page.

A failed read keeps its page in the entry: `handlePageFault` asks for a page
only if the entry has none, so the next fault sends the same page again.
-/

namespace Hostboot.Vmm

open Hostboot.Lib List

/-! ## Owners -/

/-- The places of a physical page. -/
inductive Owner where
  | pageManager
  | otherUser
  | spte (i : Nat)
  /-- A node of `iv_va2paList`, by its position. -/
  | record (position : Nat)
  deriving DecidableEq, Repr

/-- Page `p` is in the place `o`. -/
def Kernel.Owns (k : Kernel) (o : Owner) (p : Nat) : Prop :=
  match o with
  | .pageManager => p ∈ k.freePages
  | .otherUser => p ∈ k.otherPages
  | .spte i => i < k.ivPages ∧ p ≠ 0 ∧ (k.ivPtes i).page = p
  | .record position => ∃ node, k.ivVa2paList[position]? = some node ∧ node.pageAddr = p

namespace PagesOk

variable {U : Multiset Nat} {k : Kernel} {p : Nat}

theorem count_eq_one (h : PagesOk U k) (hp : p ∈ U) :
    k.freePages.count p + k.otherPages.count p + k.sptePages.count p + k.recordPages.count p
      = 1 := by
  have hcount := Multiset.count_eq_one_of_mem h.nodup hp
  rw [← h.partition] at hcount
  simpa [Multiset.count_add] using hcount

theorem mem_sptePages_iff : p ∈ k.sptePages ↔ ∃ i, k.Owns (.spte i) p := by
  constructor
  · intro hp
    rw [Kernel.sptePages, Buckets.content, Multiset.mem_sum] at hp
    obtain ⟨i, hi, hp⟩ := hp
    simp only [Buckets.listContent_cons, Buckets.listContent_nil, add_zero, ShadowPTE.pages] at hp
    split at hp
    · exact absurd hp (by simp)
    · rename_i hpage
      rw [Multiset.mem_singleton] at hp
      exact ⟨i, Finset.mem_range.mp hi, hp ▸ hpage, hp.symm⟩
  · rintro ⟨i, hi, hp, hpage⟩
    refine Buckets.mem_content hi mem_cons_self ?_
    rw [ShadowPTE.pages, hpage, if_neg hp]
    exact Multiset.mem_singleton_self p

theorem mem_recordPages_iff : p ∈ k.recordPages ↔ ∃ position, k.Owns (.record position) p := by
  rw [Kernel.recordPages, Multiset.mem_map]
  constructor
  · rintro ⟨node, hnode, hp⟩
    obtain ⟨position, hposition⟩ := mem_iff_getElem?.mp (Multiset.mem_coe.mp hnode)
    exact ⟨position, node, hposition, hp⟩
  · rintro ⟨position, node, hposition, hp⟩
    exact ⟨node, Multiset.mem_coe.mpr (mem_of_getElem? hposition), hp⟩

theorem spte_unique (h : PagesOk U k) {i j : Nat} (hi : k.Owns (.spte i) p)
    (hj : k.Owns (.spte j) p) : i = j := by
  by_contra hne
  obtain ⟨hi, hp, hpi⟩ := hi
  obtain ⟨hj, -, hpj⟩ := hj
  have hsum := sptePages_release k hi (hpi ▸ hp)
  have hmem : p ∈ (k.releaseSPTE i).sptePages := by
    rw [mem_sptePages_iff]
    refine ⟨j, hj, hp, ?_⟩
    simpa [Kernel.releaseSPTE, Kernel.setPte, Ne.symm hne] using hpj
  have htwo : 2 ≤ k.sptePages.count p := by
    rw [hsum, Multiset.count_add, hpi, Multiset.count_singleton_self]
    have := Multiset.count_pos.mpr hmem
    omega
  have hU : p ∈ U := by
    rw [← h.partition]
    have : p ∈ k.sptePages := Multiset.count_pos.mp (by omega)
    simp [this]
  have := h.count_eq_one hU
  omega

theorem record_unique (h : PagesOk U k) {i j : Nat} (hi : k.Owns (.record i) p)
    (hj : k.Owns (.record j) p) : i = j := by
  have hle : k.recordPages ≤ U := by
    rw [← h.partition]
    exact Multiset.le_add_left _ _
  have hnodup : (k.ivVa2paList.map PageAddrNode.pageAddr).Nodup :=
    Multiset.coe_nodup.mp (Multiset.nodup_of_le hle h.nodup)
  obtain ⟨node, hnode, hp⟩ := hi
  obtain ⟨node', hnode', hp'⟩ := hj
  have hi : (k.ivVa2paList.map PageAddrNode.pageAddr)[i]? = some p := by
    rw [getElem?_map, hnode, Option.map_some, hp]
  have hj : (k.ivVa2paList.map PageAddrNode.pageAddr)[j]? = some p := by
    rw [getElem?_map, hnode', Option.map_some, hp']
  obtain ⟨hilt, hget⟩ := List.getElem?_eq_some_iff.mp hi
  obtain ⟨hjlt, hget'⟩ := List.getElem?_eq_some_iff.mp hj
  exact (hnodup.getElem_inj_iff).mp (hget.trans hget'.symm)

/-- All pages in places of one kind. -/
def pagesAt (k : Kernel) : Owner → Multiset Nat
  | .pageManager => k.freePages
  | .otherUser => k.otherPages
  | .spte _ => k.sptePages
  | .record _ => k.recordPages

theorem count_pagesAt_of_owns {o : Owner} (ho : k.Owns o p) : 0 < (pagesAt k o).count p := by
  rw [Multiset.count_pos]
  cases o with
  | pageManager => exact ho
  | otherUser => exact ho
  | spte i => exact mem_sptePages_iff.2 ⟨i, ho⟩
  | record position => exact mem_recordPages_iff.2 ⟨position, ho⟩

theorem owner_unique (h : PagesOk U k) (hp : p ∈ U) {o o' : Owner} (ho : k.Owns o p)
    (ho' : k.Owns o' p) : o = o' := by
  have hone := h.count_eq_one hp
  have hcount := count_pagesAt_of_owns ho
  have hcount' := count_pagesAt_of_owns ho'
  -- Owners of different kinds would count the page twice.
  cases o <;> cases o' <;> simp only [pagesAt] at hcount hcount' <;> try omega
  · rfl
  · rfl
  · rw [h.spte_unique ho ho']
  · rw [h.record_unique ho ho']

theorem existsUnique_owner (h : PagesOk U k) (hp : p ∈ U) : ∃! o, k.Owns o p := by
  have hsome : ∃ o, k.Owns o p := by
    rw [← h.partition, Multiset.mem_add, Multiset.mem_add, Multiset.mem_add] at hp
    rcases hp with ((hp | hp) | hp) | hp
    · exact ⟨.pageManager, hp⟩
    · exact ⟨.otherUser, hp⟩
    · obtain ⟨i, hi⟩ := mem_sptePages_iff.1 hp
      exact ⟨.spte i, hi⟩
    · obtain ⟨position, hposition⟩ := mem_recordPages_iff.1 hp
      exact ⟨.record position, hposition⟩
  obtain ⟨o, ho⟩ := hsome
  exact ⟨o, ho, fun o' ho' => h.owner_unique hp ho' ho⟩

theorem mem_of_owns (h : PagesOk U k) {o : Owner} (ho : k.Owns o p) : p ∈ U := by
  rw [← h.partition]
  have hcount := count_pagesAt_of_owns ho
  rw [Multiset.count_pos] at hcount
  cases o <;> simp only [pagesAt] at hcount <;> simp [hcount]

end PagesOk

/-! ## Requests -/

/-- A page that is not present is being read in, or the last read of it failed.  As
long as no write of a virtual page failed, it has as many records as writes
outstanding. -/
structure RequestsOk (k : Kernel) : Prop where
  reading : ∀ i, (k.ivPtes i).present = false → (k.ivPtes i).page ≠ 0 →
    k.waiting .read i ≠ [] ∨ (.read, i) ∈ k.failed
  writing : ∀ i, (.write, i) ∉ k.failed → (k.records i).length = (k.waiting .write i).length

namespace Kernel

theorem records_completeRemoval (k : Kernel) (key i : Nat) :
    (k.completeRemoval key).2.records i
      = if i = key then (k.records key).tail else k.records i := by
  rw [completeRemoval]
  cases hfind : k.ivVa2paList.find? (fun node => node.key = key) with
  | none =>
    have hnil : k.records key = [] := by
      rw [records, filter_eq_nil_iff]
      exact find?_eq_none.mp hfind
    split_ifs with hi
    · rw [hi, hnil, tail_nil]
    · rfl
  | some node =>
    have hkey : node.key = key := by simpa using find?_some hfind
    have hrecords : ∃ rest, k.records key = node :: rest := by
      rw [← head?_filter] at hfind
      exact head?_eq_some_iff.mp hfind
    obtain ⟨rest, hrest⟩ := hrecords
    split_ifs with hi
    · subst hi
      rw [hrest]
      exact Lists.filter_erase_head hrest
    · apply Lists.filter_erase_of_not
      rw [decide_eq_false_iff_not, hkey]
      exact fun heq => hi heq.symm

end Kernel

namespace Received

variable {type : MsgType} {key rc : Nat} {mhp : Pending} {k k' : Kernel}

theorem records (h : Received key rc mhp k type k') (i : Nat) :
    k'.records i
      = if type = .write ∧ rc = 0 ∧ i = key then (k.records key).tail else k.records i := by
  cases h with
  | error _ hrc =>
    rw [if_neg fun hno => hrc hno.2.1]
    rfl
  | attached => rfl
  | written hrc =>
    have hrecords := k.records_completeRemoval key i
    split_ifs with hi
    · rw [if_pos hi.2.2] at hrecords
      exact hrecords
    · rw [if_neg fun hno => hi ⟨rfl, hrc, hno⟩] at hrecords
      exact hrecords

end Received

/-- The records after `recvMessage`: a successful write takes one for each
pending object. -/
theorem Kernel.records_recvMessage {type : MsgType} {key rc : Nat} {k k' : Kernel}
    (h : k.recvMessage type key rc = some k') (i : Nat) :
    k'.records i = if type = .write ∧ rc = 0 ∧ i = key then
      (k.records key).drop (k.waiting type key).length else k.records i := by
  have hinv : ∃ n, n + ([] : List Pending).length = (k.waiting type key).length ∧
      ∀ i, k'.records i = if type = .write ∧ rc = 0 ∧ i = key then (k.records key).drop n
        else k.records i := by
    refine recvLoop_invariant
      (P := fun rest k1 => ∃ n, n + rest.length = (k.waiting type key).length ∧
        ∀ i, k1.records i = if type = .write ∧ rc = 0 ∧ i = key then (k.records key).drop n
          else k.records i) ?_ ⟨0, Nat.zero_add _, fun i => ?_⟩ h
    · rintro mhp rest k1 k2 ⟨n, hn, hrecords⟩ hround
      refine ⟨n + 1, ?_, fun i => ?_⟩
      · rw [length_cons] at hn
        omega
      · rw [(recvPending_cases hround).records i, hrecords key, hrecords i]
        split_ifs with hi hkey
        · rw [tail_drop]
        · exact absurd ⟨hi.1, hi.2.1, rfl⟩ hkey
        · rfl
    · split_ifs with hi
      · rw [hi.2.2, drop_zero]
      · rfl
  obtain ⟨n, hn, hrecords⟩ := hinv
  rw [length_nil, Nat.add_zero] at hn
  rw [hrecords i, hn]

namespace RequestsOk

variable {U : Multiset Nat} {k k' : Kernel} {task : Option Nat} {i : Nat} {op : Op}

theorem congr (h : RequestsOk k)
    (h1 : ∀ i, (k'.ivPtes i).present = (k.ivPtes i).present ∧
      (k'.ivPtes i).page = (k.ivPtes i).page)
    (h2 : k'.ivPending = k.ivPending) (h3 : k'.ivVa2paList = k.ivVa2paList)
    (h4 : k'.failed = k.failed) : RequestsOk k' := by
  refine ⟨?_, ?_⟩
  · intro i hpresent hpage
    rw [(h1 i).1] at hpresent
    rw [(h1 i).2] at hpage
    rw [Kernel.waiting, h2, h4]
    exact h.reading i hpresent hpage
  · intro i hi
    rw [h4] at hi
    rw [Kernel.waiting, Kernel.records, h2, h3]
    exact h.writing i hi

theorem setPte (h : RequestsOk k) {pte : ShadowPTE} (hpte : pte.present = true ∨ pte.page = 0) :
    RequestsOk (k.setPte i pte) := by
  refine ⟨?_, h.writing⟩
  intro j hpresent hpage
  by_cases hj : j = i
  · subst hj
    simp only [Kernel.setPte, Function.update_self] at hpresent hpage
    rcases hpte with hpte | hpte
    · exact absurd (hpresent.symm.trans hpte) (by simp)
    · exact absurd hpte hpage
  · simp only [Kernel.setPte, Function.update_of_ne hj] at hpresent hpage
    exact h.reading j hpresent hpage

theorem writeOut (h : RequestsOk k) : RequestsOk (k.writeOut i task) := by
  refine ⟨?_, ?_⟩
  · intro j hpresent hpage
    rw [k.waiting_writeOut, if_neg fun hno => absurd hno.1 (by simp)]
    have hset : RequestsOk
        (k.setPte i { k.ivPtes i with dirty := false, present := false, page := 0 }) :=
      h.setPte (Or.inr rfl)
    exact hset.reading j hpresent hpage
  · intro j hj
    rw [k.waiting_writeOut, k.records_writeOut]
    by_cases hij : j = i
    · subst hij
      rw [if_pos rfl, if_pos ⟨rfl, rfl⟩, length_cons, length_cons, h.writing j hj]
    · rw [if_neg hij, if_neg fun hno => hij hno.2]
      exact h.writing j hj

theorem removal (h : RequestsOk k) (hr : Removal task k k') : RequestsOk k' := by
  cases hr with
  | delEntry i => exact h.congr (fun _ => ⟨rfl, rfl⟩) rfl rfl rfl
  | writeOut i => exact h.writeOut
  | dropPage i =>
    have hset : RequestsOk
        (k.setPte i { k.ivPtes i with dirty := false, present := false, page := 0 }) :=
      h.setPte (Or.inr rfl)
    exact hset.congr (fun _ => ⟨rfl, rfl⟩) rfl rfl rfl

theorem removals (h : RequestsOk k) (hr : Removals task k k') : RequestsOk k' := by
  induction hr with
  | refl => exact h
  | tail _ hlast ih => exact ih.removal hlast

theorem touch (h : RequestsOk k) (store : Bool) : RequestsOk (k.touch i store) := by
  cases store with
  | false => exact h
  | true =>
    refine h.congr (fun j => ?_) rfl rfl rfl
    by_cases hj : j = i
    · subst hj
      simp [Kernel.touch, Kernel.setPte]
    · simp [Kernel.touch, Kernel.setPte, hj]

theorem requestPage {t : Nat} (h : ∀ j, j ≠ i → (k.ivPtes j).present = false →
      (k.ivPtes j).page ≠ 0 → k.waiting .read j ≠ [] ∨ (.read, j) ∈ k.failed)
    (hwriting : ∀ j, (.write, j) ∉ k.failed →
      (k.records j).length = (k.waiting .write j).length) : RequestsOk (k.requestPage i t) := by
  refine ⟨?_, ?_⟩
  · intro j hpresent hpage
    rw [Kernel.requestPage, k.waiting_sendMessage]
    by_cases hj : j = i
    · rw [if_pos ⟨rfl, hj⟩]
      exact Or.inl (cons_ne_nil _ _)
    · rw [if_neg fun hno => hj hno.2]
      exact h j hj hpresent hpage
  · intro j hj
    rw [Kernel.requestPage, k.waiting_sendMessage, if_neg fun hno => absurd hno.1 (by simp)]
    exact hwriting j hj

theorem resolved {t : Nat} (h : RequestsOk k) (hr : Resolved t i k k') : RequestsOk k' := by
  cases hr with
  | nothing => exact h
  | mapped => exact h.congr (fun _ => ⟨rfl, rfl⟩) rfl rfl rfl
  | requested => exact requestPage (fun j _ => h.reading j) h.writing
  | allocated p =>
    refine requestPage ?_ h.writing
    intro j hj hpresent hpage
    simp only [Kernel.takePage, Kernel.setPte, Function.update_of_ne hj] at hpresent hpage
    exact h.reading j hpresent hpage
  | zeroed p k1 _ _ _ _ hk1 =>
    subst hk1
    have hset : RequestsOk (k.setPte i { (k.ivPtes i).setPage p with present := true }) :=
      h.setPte (Or.inl rfl)
    refine hset.congr (fun j => ?_) rfl rfl rfl
    simp [Kernel.zeroPage, Kernel.takePage, Kernel.setPte, Kernel.allocatePage]

theorem responded {position rc content : Nat} {m : Message} (h : RequestsOk k) (hok : BlockOk U k)
    (hm : k.messages[position]? = some m)
    (hrecv : (k.answer position m rc content).recvMessage m.type m.key rc = some k') :
    RequestsOk k' := by
  have hr := hok.responded hm hrecv
  have hfailed : k'.failed = if rc = 0 then
      k.failed.filter (fun x => x ≠ (.read, m.key) ∨ m.type = .write)
      else (m.type, m.key) :: k.failed := hr.unchanged.failed
  have hsub : ∀ x ∈ k.failed, ¬ (x = (.read, m.key) ∧ m.type = .read) → x ∈ k'.failed := by
    intro x hx hne
    rw [hfailed]
    split_ifs
    · rw [mem_filter, decide_eq_true_eq]
      refine ⟨hx, ?_⟩
      by_cases heq : x = (.read, m.key)
      · right
        cases htype : m.type with
        | read => exact absurd ⟨heq, htype⟩ hne
        | write => rfl
      · exact Or.inl heq
    · exact mem_cons_of_mem _ hx
  have herror : rc ≠ 0 → (m.type, m.key) ∈ k'.failed := by
    intro hrc
    rw [hfailed, if_neg hrc]
    exact mem_cons_self
  refine ⟨?_, ?_⟩
  · intro i hpresent hpage
    by_cases hself : MsgType.read = m.type ∧ i = m.key
    · by_cases hrc : rc = 0
      · rw [hr.ptes, if_pos ⟨hself.1.symm, hrc⟩, hself.2] at hpresent
        simp [Kernel.attached, Kernel.setPte] at hpresent
      · rw [hself.1, hself.2]
        exact Or.inr (herror hrc)
    · have hpte : k'.ivPtes i = k.ivPtes i := by
        rw [hr.ptes]
        split_ifs with hread
        · have hi : i ≠ m.key := fun heq => hself ⟨hread.1.symm, heq⟩
          simp [Kernel.attached, Kernel.setPte, Kernel.answer, Kernel.provide, hi]
        · rfl
      rw [hpte] at hpresent hpage
      rw [hr.others .read i hself]
      rcases h.reading i hpresent hpage with hwaiting | hmem
      · exact Or.inl hwaiting
      · refine Or.inr (hsub _ hmem ?_)
        rintro ⟨heq, htype⟩
        exact hself ⟨htype.symm, congrArg Prod.snd heq⟩
  · intro i hi
    have hold : (k.records i).length = (k.waiting .write i).length :=
      h.writing i fun hno => hi (hsub _ hno fun heq => absurd (congrArg Prod.fst heq.1) (by simp))
    have hrecords := Kernel.records_recvMessage hrecv i
    by_cases hself : MsgType.write = m.type ∧ i = m.key
    · have hrc : rc = 0 := by
        by_contra hrc
        apply hi
        rw [hself.1, hself.2]
        exact herror hrc
      rw [if_pos ⟨hself.1.symm, hrc, hself.2⟩] at hrecords
      rw [hrecords, hself.1, hself.2, hr.answered, length_drop]
      rw [hself.1, hself.2] at hold
      exact (Nat.sub_eq_zero_of_le hold.le).trans length_nil.symm
    · rw [if_neg fun hno => hself ⟨hno.1.symm, hno.2.2⟩] at hrecords
      rw [hrecords, hr.others .write i hself]
      exact hold

theorem effect (h : RequestsOk k) (hok : BlockOk U k) (heffect : Effect k op k') :
    RequestsOk k' := by
  cases heffect with
  | unhandled => exact h
  | fault task i store alloc k' _ _ hr => exact (h.touch store).resolved hr
  | store => exact h.congr (fun _ => ⟨rfl, rfl⟩) rfl rfl rfl
  | removePages op vaddr size task k' _ hr => exact h.removals hr
  | castOutPages critical k' hr => exact h.removals hr
  | dropEntry i referenced =>
    obtain ⟨ptes, heq, hptes⟩ := (k.delEntry i).updateRefCount_eq i referenced
    rw [heq]
    refine h.congr (fun j => ?_) rfl rfl rfl
    obtain ⟨n, hn⟩ := hptes j
    dsimp only
    rw [hn]
    exact ⟨rfl, rfl⟩
  | respond position rc content m k' hm hrecv => exact h.responded hok hm hrecv
  | otherAllocate => exact h.congr (fun _ => ⟨rfl, rfl⟩) rfl rfl rfl
  | otherFree => exact h.congr (fun _ => ⟨rfl, rfl⟩) rfl rfl rfl
  | otherWrite => exact h.congr (fun _ => ⟨rfl, rfl⟩) rfl rfl rfl

end RequestsOk

/-! ## Every run -/

variable {U : Multiset Nat} {baseAddr pages : Nat} {msgHdlrs : Bool}
  {permissions : Nat → ShadowPTE} {memory : Nat → Nat} {ops : List Op} {k : Kernel}

/-- The invariant of a run. -/
structure OwnershipOk (U : Multiset Nat) (k : Kernel) : Prop where
  block : BlockOk U k
  requests : RequestsOk k

theorem ownershipOk_of_run (hnodup : U.Nodup) (hU : ∀ p ∈ U, 0 < p ∧ p < 2 ^ 20)
    (hrun : Run Step (Kernel.init baseAddr pages msgHdlrs permissions U memory) ops k) :
    OwnershipOk U k := by
  have hinit : OwnershipOk U (Kernel.init baseAddr pages msgHdlrs permissions U memory) :=
    ⟨BlockOk.init hnodup hU, fun _ _ hno => absurd rfl hno, fun _ _ => rfl⟩
  refine hrun.invariant hinit ?_
  intro s op s' h hstep
  have heffect := h.block.effect_of_step hstep
  exact ⟨h.block.effect heffect, h.requests.effect h.block heffect⟩

/-- In every state of every run of a block each page of the page manager has
exactly one owner, and no page is free twice.  A page in an entry that is not
present has a read pending and a message on its way that names the page, or
the last read of it failed.  As long as no write of a virtual page failed, each record
of the write handler for it stands for one outstanding write, with a message
on its way.  No allowed step trips an assert. -/
theorem ownership_of_run (hnodup : U.Nodup) (hU : ∀ p ∈ U, 0 < p ∧ p < 2 ^ 20)
    (hrun : Run Step (Kernel.init baseAddr pages msgHdlrs permissions U memory) ops k) :
    (∀ p ∈ U, ∃! o, k.Owns o p) ∧ (∀ o p, k.Owns o p → p ∈ U) ∧ k.freePages.Nodup ∧
    (∀ i, (k.ivPtes i).present = false → (k.ivPtes i).page ≠ 0 →
      (k.waiting .read i ≠ [] ∧ ⟨.read, i, (k.ivPtes i).page⟩ ∈ k.messages) ∨
        (.read, i) ∈ k.failed) ∧
    (∀ i, (.write, i) ∉ k.failed → (k.records i).length = (k.waiting .write i).length ∧
      (k.records i ≠ [] → ∃ m ∈ k.messages, m.type = .write ∧ m.key = i)) ∧
    (∀ op : Op, op.Allowed k → ∃ k', k.exec op = some k') := by
  obtain ⟨hok, hreq⟩ := ownershipOk_of_run hnodup hU hrun
  have hfree : k.freePages ≤ U := by
    rw [← hok.pages.partition, add_assoc, add_assoc]
    exact Multiset.le_add_right _ _
  refine ⟨fun p hp => hok.pages.existsUnique_owner hp, fun o p ho => hok.pages.mem_of_owns ho,
    Multiset.nodup_of_le hfree hnodup, ?_, ?_, ?_⟩
  · intro i hpresent hpage
    rcases hreq.reading i hpresent hpage with hwaiting | hmem
    · refine Or.inl ⟨hwaiting, ?_⟩
      obtain ⟨⟨type, key, data⟩, hm, htype, hkey⟩ := hok.msgs.message_of_waiting hwaiting
      dsimp only at htype hkey
      subst htype hkey
      have hdata : data = (k.ivPtes key).page :=
        hok.msgs.data key _ (mem_filter.mpr ⟨hm, by simp⟩)
      rw [← hdata]
      exact hm
    · exact Or.inr hmem
  · intro i hi
    refine ⟨hreq.writing i hi, fun hrecords => ?_⟩
    apply hok.msgs.message_of_waiting
    intro hnil
    have hlength := hreq.writing i hi
    rw [hnil, length_nil, length_eq_zero_iff] at hlength
    exact hrecords hlength
  · intro op hop
    obtain ⟨k', hexec, -⟩ := hok.exec hop
    exact ⟨k', hexec⟩

/-- A block of one readable page. -/
def onePage (page : Nat) (writable : Bool) : Kernel :=
  Kernel.init 0 1 true
    (fun _ => ⟨0, false, true, writable, false, writable, false, false, 0⟩) {page} (fun _ => 0)

/-- A page is read in, dirtied and removed; its write is outstanding. -/
theorem ownership_of_run_writing :
    ∃ k, Run Step (onePage 5 true)
        [.fault 0 0 true (some 5), .respond 0 0 7, .store 0 8, .removePages .release 0 4096 none] k ∧
      ∃! o, k.Owns o 5 := by
  have hrun : ∃ k, Run Step (onePage 5 true) [.fault 0 0 true (some 5), .respond 0 0 7, .store 0 8,
      .removePages .release 0 4096 none] k := by
    refine ⟨_, .cons ⟨⟨rfl, ?_⟩, rfl⟩ (.cons ⟨Nat.zero_lt_one, rfl⟩ (.cons ⟨⟨5, rfl⟩, rfl⟩
      (.cons ⟨fun _ hno => absurd hno (by simp), rfl⟩ .nil)))⟩
    simp [onePage, Kernel.init]
  obtain ⟨k, hrun⟩ := hrun
  exact ⟨k, hrun, (ownership_of_run (by simp) (by simp) hrun).1 5 (by simp)⟩

/-- After a failed read the page is neither free nor in a present entry nor in a
request on its way: the entry keeps it for the next fault. -/
theorem page_after_failed_read :
    ∃ k, Run Step (onePage 5 false) [.fault 0 0 false (some 5), .respond 0 1 0] k ∧
      5 ∉ k.freePages ∧ 5 ∉ k.otherPages ∧
      (∀ i, ¬ ((k.ivPtes i).present = true ∧ (k.ivPtes i).page = 5)) ∧
      (∀ type, k.ivPending type = []) ∧ k.messages = [] ∧ k.ivVa2paList = [] ∧
      (k.ivPtes 0).page = 5 := by
  refine ⟨_, .cons ⟨⟨rfl, ?_⟩, rfl⟩ (.cons ⟨Nat.zero_lt_one, rfl⟩ .nil), ?_⟩
  · simp [onePage, Kernel.init]
  · refine ⟨by decide, by decide, ?_, ?_, rfl, rfl, rfl⟩
    · intro i hi
      cases i with
      | zero => exact Bool.false_ne_true hi.1
      | succ i => exact Bool.false_ne_true hi.1
    · intro type
      cases type <;> rfl

end Hostboot.Vmm
