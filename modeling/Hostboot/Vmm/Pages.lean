import Mathlib
import Hostboot.Lib.Buckets
import Hostboot.Vmm.Block

/-!
# Who owns a physical page

A physical page of the page manager is free, belongs to another user, stands
in an entry of the shadow page table, or stands in a node of `iv_va2paList`
while its contents are written out.  `PagesOk U k` says that these four places
hold the pages `U`, each page once, and that the hardware page table maps only
present pages.  No function that moves a page breaks it.

`MsgsOk k` is what holds of the messages: a key of a handler has one message on
its way as long as something is pending for it, and the page of a pending read
is not present and is the page named in the message.
-/

namespace Hostboot.Vmm

open Hostboot.Lib
open Function (update update_of_ne update_self)

/-! ## The places of a page -/

/-- The page of an entry of the shadow page table. -/
def ShadowPTE.pages (pte : ShadowPTE) : Multiset Nat := if pte.page = 0 then 0 else {pte.page}

/-- The entry of the hardware page table for a present page. -/
def ShadowPTE.entry (pte : ShadowPTE) : Option (Nat × Bool) := some (pte.page, pte.mapWritable)

namespace Kernel

/-- The pages in the shadow page table. -/
def sptePages (k : Kernel) : Multiset Nat :=
  Buckets.content k.ivPages (fun _ pte => pte.pages) fun i => [k.ivPtes i]

/-- The pages in the list of the write handler. -/
def recordPages (k : Kernel) : Multiset Nat :=
  (k.ivVa2paList : Multiset PageAddrNode).map PageAddrNode.pageAddr

/-- Exchanging one entry moves the pages of the table by the difference. -/
theorem sptePages_setPte (k : Kernel) {i : Nat} (hi : i < k.ivPages) (pte : ShadowPTE) :
    (k.setPte i pte).sptePages + (k.ivPtes i).pages = k.sptePages + pte.pages := by
  have hlist : (fun j => [update k.ivPtes i pte j])
      = update (fun j => [k.ivPtes j]) i [pte] := by
    funext j
    by_cases hj : j = i
    · subst hj
      simp
    · simp [hj]
  have h := Buckets.content_update k.ivPages (fun _ pte => pte.pages) (fun j => [k.ivPtes j]) hi
    [pte]
  rw [← hlist] at h
  simpa [sptePages, setPte, Buckets.listContent_cons] using h

end Kernel

/-- The four places hold the pages `U`, each page once.  Without a provider only
present pages have a page.  The hardware page table maps present pages only,
and writable only if they are dirty. -/
structure PagesOk (U : Multiset Nat) (k : Kernel) : Prop where
  nodup : U.Nodup
  page : ∀ p ∈ U, 0 < p ∧ p < 2 ^ 20
  partition : k.freePages + k.otherPages + k.sptePages + k.recordPages = U
  outside : ∀ i, k.ivPages ≤ i → (k.ivPtes i).present = false ∧ (k.ivPtes i).page = 0
  present : ∀ i, (k.ivPtes i).present = true → (k.ivPtes i).page ≠ 0
  idle : k.ivMsgHdlrs = false → ∀ i, (k.ivPtes i).present = false → (k.ivPtes i).page = 0
  mapped : ∀ i p w, k.pageTable i = some (p, w) →
    (k.ivPtes i).present = true ∧ (k.ivPtes i).page = p ∧ (w = true → (k.ivPtes i).dirty = true)

namespace PagesOk

variable {U : Multiset Nat} {k k' : Kernel} {i : Nat}

theorem congr (h : PagesOk U k) (h1 : k'.ivPtes = k.ivPtes) (h2 : k'.pageTable = k.pageTable)
    (h3 : k'.freePages = k.freePages) (h4 : k'.otherPages = k.otherPages)
    (h5 : k'.ivVa2paList = k.ivVa2paList) (h6 : k'.ivPages = k.ivPages)
    (h7 : k'.ivMsgHdlrs = k.ivMsgHdlrs) : PagesOk U k' := by
  refine ⟨h.nodup, h.page, ?_, ?_, ?_, ?_, ?_⟩
  · have hspte : k'.sptePages = k.sptePages := by
      rw [Kernel.sptePages, Kernel.sptePages, h1, h6]
    have hrecord : k'.recordPages = k.recordPages := by
      rw [Kernel.recordPages, Kernel.recordPages, h5]
    rw [h3, h4, hspte, hrecord]
    exact h.partition
  · rw [h1, h6]
    exact h.outside
  · rw [h1]
    exact h.present
  · rw [h1, h7]
    exact h.idle
  · rw [h1, h2]
    exact h.mapped

theorem lt_of_present (h : PagesOk U k) (hp : (k.ivPtes i).present = true) : i < k.ivPages := by
  by_contra hge
  rw [(h.outside i (not_lt.mp hge)).1] at hp
  exact Bool.false_ne_true hp

theorem setPte (h : PagesOk U k) {pte : ShadowPTE} (hpage : pte.page = (k.ivPtes i).page)
    (hi : i < k.ivPages) (hpresent : pte.present = true → pte.page ≠ 0)
    (hidle : k.ivMsgHdlrs = false → pte.present = false → pte.page = 0)
    (hmapped : ∀ p w, k.pageTable i = some (p, w) →
      pte.present = true ∧ (w = true → pte.dirty = true)) : PagesOk U (k.setPte i pte) := by
  refine ⟨h.nodup, h.page, ?_, ?_, ?_, ?_, ?_⟩
  · have hsum := k.sptePages_setPte hi pte
    have hsame : pte.pages = (k.ivPtes i).pages := by
      rw [ShadowPTE.pages, ShadowPTE.pages, hpage]
    rw [hsame] at hsum
    have hspte : (k.setPte i pte).sptePages = k.sptePages := add_right_cancel hsum
    change k.freePages + k.otherPages + (k.setPte i pte).sptePages + k.recordPages = U
    rw [hspte]
    exact h.partition
  · intro j hj
    have hne : j ≠ i := by
      intro heq
      exact absurd hi (not_lt.mpr (heq ▸ hj))
    simpa [Kernel.setPte, hne] using h.outside j hj
  · intro j hj
    by_cases hne : j = i
    · subst hne
      simp only [Kernel.setPte, update_self] at hj ⊢
      exact hpresent hj
    · simp only [Kernel.setPte, update_of_ne hne] at hj ⊢
      exact h.present j hj
  · intro hhdlrs j hj
    by_cases hne : j = i
    · subst hne
      simp only [Kernel.setPte, update_self] at hj ⊢
      exact hidle hhdlrs hj
    · simp only [Kernel.setPte, update_of_ne hne] at hj ⊢
      exact h.idle hhdlrs j hj
  · intro j p w hj
    obtain ⟨h1, h2, h3⟩ := h.mapped j p w hj
    by_cases hne : j = i
    · subst hne
      obtain ⟨h4, h5⟩ := hmapped p w hj
      simp only [Kernel.setPte, update_self]
      exact ⟨h4, hpage.trans h2, h5⟩
    · simp only [Kernel.setPte, update_of_ne hne]
      exact ⟨h1, h2, h3⟩

theorem delEntry (h : PagesOk U k) (i : Nat) : PagesOk U (k.delEntry i) := by
  refine ⟨h.nodup, h.page, h.partition, h.outside, h.present, h.idle, ?_⟩
  intro j p w hj
  by_cases hne : j = i
  · subst hne
    simp [Kernel.delEntry] at hj
  · simp only [Kernel.delEntry, update_of_ne hne] at hj
    exact h.mapped j p w hj

theorem mapPage (h : PagesOk U k) (hpresent : (k.ivPtes i).present = true) :
    ∃ k', k.mapPage i = some k' ∧ PagesOk U k' ∧
      k' = { k with pageTable := update k.pageTable i (k.ivPtes i).entry } := by
  have hall : (k.pageTable i).all (fun entry => entry.1 = (k.ivPtes i).page) = true := by
    cases hentry : k.pageTable i with
    | none => rfl
    | some entry =>
      obtain ⟨p, w⟩ := entry
      simp [(h.mapped i p w hentry).2.1]
  refine ⟨_, if_pos hall, ?_, rfl⟩
  refine ⟨h.nodup, h.page, h.partition, h.outside, h.present, h.idle, ?_⟩
  intro j p w hj
  by_cases hne : j = i
  · subst hne
    simp only [update_self, Option.some.injEq, Prod.mk.injEq] at hj
    obtain ⟨rfl, rfl⟩ := hj
    refine ⟨hpresent, rfl, fun hw => ?_⟩
    simp only [ShadowPTE.mapWritable, Bool.and_eq_true] at hw
    exact hw.2
  · simp only [update_of_ne hne] at hj
    exact h.mapped j p w hj

theorem sptePages_release (k : Kernel) (hi : i < k.ivPages) (hpage : (k.ivPtes i).page ≠ 0) :
    k.sptePages = (k.releaseSPTE i).sptePages + {(k.ivPtes i).page} := by
  have hsum := k.sptePages_setPte hi
    { k.ivPtes i with dirty := false, present := false, page := 0 }
  rw [ShadowPTE.pages, if_neg hpage, ShadowPTE.pages, if_pos rfl, add_zero] at hsum
  exact hsum.symm

theorem release (h : PagesOk U k) (hpresent : (k.ivPtes i).present = true)
    (hk' : k'.ivPtes = (k.releaseSPTE i).ivPtes)
    (htable : k'.pageTable = update k.pageTable i none)
    (hpages : k'.ivPages = k.ivPages) (hhdlrs : k'.ivMsgHdlrs = k.ivMsgHdlrs)
    (hplaces : k'.freePages + k'.otherPages + k'.recordPages
      = k.freePages + k.otherPages + k.recordPages + {(k.ivPtes i).page}) : PagesOk U k' := by
  have hi := h.lt_of_present hpresent
  have hspte : k'.sptePages = (k.releaseSPTE i).sptePages := by
    rw [Kernel.sptePages, Kernel.sptePages, hk', hpages]
    rfl
  refine ⟨h.nodup, h.page, ?_, ?_, ?_, ?_, ?_⟩
  · have hsum := sptePages_release k hi (h.present i hpresent)
    have hpart := h.partition
    rw [hsum] at hpart
    rw [hspte, ← hpart]
    calc k'.freePages + k'.otherPages + (k.releaseSPTE i).sptePages + k'.recordPages
        = k'.freePages + k'.otherPages + k'.recordPages + (k.releaseSPTE i).sptePages := by abel
      _ = _ := by
        rw [hplaces]
        abel
  · intro j hj
    rw [hpages] at hj
    have hne : j ≠ i := fun heq => absurd hi (not_lt.mpr (heq ▸ hj))
    rw [hk']
    simpa [Kernel.releaseSPTE, Kernel.setPte, hne] using h.outside j hj
  · intro j hj
    rw [hk'] at hj ⊢
    by_cases hne : j = i
    · subst hne
      simp [Kernel.releaseSPTE, Kernel.setPte] at hj
    · simp only [Kernel.releaseSPTE, Kernel.setPte, update_of_ne hne] at hj ⊢
      exact h.present j hj
  · intro hno j hj
    rw [hhdlrs] at hno
    rw [hk'] at hj ⊢
    by_cases hne : j = i
    · subst hne
      simp [Kernel.releaseSPTE, Kernel.setPte]
    · simp only [Kernel.releaseSPTE, Kernel.setPte, update_of_ne hne] at hj ⊢
      exact h.idle hno j hj
  · intro j p w hj
    rw [htable] at hj
    by_cases hne : j = i
    · subst hne
      simp at hj
    · rw [update_of_ne hne] at hj
      rw [hk']
      simp only [Kernel.releaseSPTE, Kernel.setPte, update_of_ne hne]
      exact h.mapped j p w hj

end PagesOk

/-! ## Removing a page -/

namespace Kernel

/-- The branch of `removePages` that writes the page out. -/
def writeOut (k : Kernel) (i : Nat) (task : Option Nat) : Kernel :=
  let page := (k.ivPtes i).page
  let k := (k.delEntry i).releaseSPTE i
  let k := { k with ivMsgGrpList := match task with
    | some t => incMsgCount k.ivMsgGrpList t
    | none => k.ivMsgGrpList }
  (k.addVirtAddr i page).sendMessage .write i page task

/-- The branch of `removePages` that frees the page. -/
def dropPage (k : Kernel) (i : Nat) : Kernel :=
  ((k.delEntry i).releaseSPTE i).freePage (k.ivPtes i).page
    ⟨i, k.memory (k.ivPtes i).page, (k.ivPtes i).dirty || k.modified i⟩

end Kernel

/-- What a round of `removePages` for `task` can do to a page. -/
inductive Removal (task : Option Nat) (k : Kernel) : Kernel → Prop
  | delEntry (i : Nat) : Removal task k (k.delEntry i)
  | writeOut (i : Nat) : (k.ivPtes i).present = true → (k.ivPtes i).dirty = true →
      (k.ivPtes i).trackWrite = true → k.ivMsgHdlrs = true → Removal task k (k.writeOut i task)
  | dropPage (i : Nat) : (k.ivPtes i).present = true →
      ((k.ivPtes i).dirty = true → (k.ivPtes i).trackWrite = false ∨ k.ivMsgHdlrs = false) →
      Removal task k (k.dropPage i)

/-- Any number of such rounds. -/
def Removals (task : Option Nat) : Kernel → Kernel → Prop :=
  Relation.ReflTransGen (Removal task)

namespace Kernel

theorem removePage_removals (op : PageRemovalOp) (task : Option Nat) (k : Kernel) (i : Nat) :
    Removals task k (removePage op task k i) := by
  rw [removePage]
  dsimp only
  split_ifs with hpresent hwrite hskip hop
  · simp only [Bool.and_eq_true, decide_eq_true_eq] at hpresent hwrite
    exact .single (.writeOut i hpresent.1 hwrite.1.1 hwrite.1.2 hwrite.2)
  · exact .single (.delEntry i)
  · simp only [Bool.and_eq_true, decide_eq_true_eq] at hpresent
    refine .single (.dropPage i hpresent.1 fun hdirty => ?_)
    by_contra hno
    rw [not_or, Bool.not_eq_false, Bool.not_eq_false] at hno
    apply hwrite
    rw [hdirty, hno.1]
    exact hno.2
  · exact .single (.delEntry i)
  · exact .refl

theorem castOutPage_removals (rwConstraint roConstraint : Nat) (k : Kernel) (i : Nat) :
    Removals none k (castOutPage rwConstraint roConstraint k i) := by
  rw [castOutPage]
  split_ifs
  · exact removePage_removals .evict none k i
  · exact .refl
  · exact removePage_removals .evict none k i
  · exact .refl
  · exact .refl

theorem foldl_removals {task : Option Nat} {f : Kernel → Nat → Kernel}
    (hf : ∀ k i, Removals task k (f k i)) (l : List Nat) (k : Kernel) :
    Removals task k (l.foldl f k) := by
  induction l generalizing k with
  | nil => exact .refl
  | cons i l ih => exact (hf k i).trans (ih (f k i))

theorem removePages_removals (k : Kernel) (op : PageRemovalOp) (vaddr size : Nat)
    (task : Option Nat) : Removals task k (k.removePages op vaddr size task) :=
  foldl_removals (removePage_removals op task) _ k

theorem castOutPages_removals (k : Kernel) (critical : Bool) :
    Removals none k (k.castOutPages critical) :=
  foldl_removals (castOutPage_removals _ _) _ k

end Kernel

namespace PagesOk

variable {U : Multiset Nat} {k k' : Kernel} {i : Nat} {task : Option Nat}

theorem writeOut (h : PagesOk U k) (hpresent : (k.ivPtes i).present = true) :
    PagesOk U (k.writeOut i task) := by
  refine h.release hpresent rfl rfl rfl rfl ?_
  change k.freePages + k.otherPages
    + (((⟨i, (k.ivPtes i).page⟩ :: k.ivVa2paList : List PageAddrNode) : Multiset PageAddrNode).map
        PageAddrNode.pageAddr) = _
  rw [← Multiset.cons_coe, Multiset.map_cons, ← Multiset.singleton_add]
  rw [Kernel.recordPages]
  abel

theorem dropPage (h : PagesOk U k) (hpresent : (k.ivPtes i).present = true) :
    PagesOk U (k.dropPage i) := by
  refine h.release hpresent rfl rfl rfl rfl ?_
  change (k.ivPtes i).page ::ₘ k.freePages + k.otherPages + k.recordPages = _
  rw [← Multiset.singleton_add]
  abel

theorem removal (h : PagesOk U k) (hr : Removal task k k') : PagesOk U k' := by
  cases hr with
  | delEntry i => exact h.delEntry i
  | writeOut i hpresent => exact h.writeOut hpresent
  | dropPage i hpresent => exact h.dropPage hpresent

end PagesOk

/-! ## Page faults -/

namespace Kernel

/-- `handlePageFault` marks the page of a store as dirty. -/
def touch (k : Kernel) (i : Nat) (store : Bool) : Kernel :=
  if store then k.setPte i { k.ivPtes i with dirty := true } else k

/-- The part of `handlePageFault` after the permissions were checked. -/
def resolveFault (k : Kernel) (task i : Nat) (alloc : Option Nat) : Option Kernel :=
  if (k.ivPtes i).present then k.mapPage i
  else if k.ivMsgHdlrs then k.readFault i task alloc
  else k.zeroFault i alloc

theorem handlePageFault_cases (k : Kernel) (task i : Nat) (store : Bool) (alloc : Option Nat) :
    k.handlePageFault task i store alloc = some k ∨
      i < k.ivPages ∧
        k.handlePageFault task i store alloc = (k.touch i store).resolveFault task i alloc := by
  rw [handlePageFault]
  dsimp only
  by_cases hcontained : i < k.ivPages
  · by_cases hnone : (k.ivPtes i).noAccess = true
    · exact Or.inl (by rw [if_neg (not_not.mpr hcontained), if_pos hnone])
    · by_cases hperm : (store && !(k.ivPtes i).writable) = true
      · exact Or.inl (by rw [if_neg (not_not.mpr hcontained), if_neg hnone, if_pos hperm])
      · refine Or.inr ⟨hcontained, ?_⟩
        rw [if_neg (not_not.mpr hcontained), if_neg hnone, if_neg hperm]
        cases store <;> simp [touch, resolveFault, setPte]
  · exact Or.inl (if_pos hcontained)

/-- `handlePageFault` and the page it got for an entry without one. -/
def takePage (k : Kernel) (i p : Nat) : Kernel :=
  (k.allocatePage p).setPte i ((k.ivPtes i).setPage p)

/-- The message of `handlePageFault` to the provider. -/
def requestPage (k : Kernel) (i task : Nat) : Kernel :=
  k.sendMessage .read i (k.ivPtes i).page (some task)

/-- A page of a block without provider, filled with zeros. -/
def zeroPage (k : Kernel) (i p : Nat) : Kernel :=
  { k.setPte i { k.ivPtes i with present := true } with
    memory := update k.memory p 0
    modified := update k.modified i false }

end Kernel

/-- What the part of `handlePageFault` after the checks can do. -/
inductive Resolved (task i : Nat) (k : Kernel) : Kernel → Prop
  | nothing : Resolved task i k k
  | mapped : (k.ivPtes i).present = true →
      Resolved task i k { k with pageTable := update k.pageTable i (k.ivPtes i).entry }
  | requested : (k.ivPtes i).present = false → (k.ivPtes i).page ≠ 0 → k.ivMsgHdlrs = true →
      Resolved task i k (k.requestPage i task)
  | allocated (p : Nat) : (k.ivPtes i).present = false → (k.ivPtes i).page = 0 →
      p ∈ k.freePages → k.ivMsgHdlrs = true →
      Resolved task i k ((k.takePage i p).requestPage i task)
  | zeroed (p : Nat) (k' : Kernel) : (k.ivPtes i).present = false → (k.ivPtes i).page = 0 →
      p ∈ k.freePages → k.ivMsgHdlrs = false → k' = (k.takePage i p).zeroPage i p →
      Resolved task i k
        { k' with pageTable := update k'.pageTable i (k'.ivPtes i).entry }

namespace PagesOk

variable {U : Multiset Nat} {k k' : Kernel} {i task p : Nat} {alloc : Option Nat}

theorem touch (h : PagesOk U k) (hi : i < k.ivPages) (store : Bool) :
    PagesOk U (k.touch i store) := by
  cases store with
  | false => exact h
  | true =>
    refine h.setPte rfl hi (h.present i) (fun hno => h.idle hno i) ?_
    intro p w hentry
    exact ⟨(h.mapped i p w hentry).1, fun _ => rfl⟩

theorem bound_of_free (h : PagesOk U k) (hp : p ∈ k.freePages) : 0 < p ∧ p < 2 ^ 20 := by
  apply h.page p
  rw [← h.partition]
  simp only [Multiset.mem_add]
  exact Or.inl (Or.inl (Or.inl hp))

theorem unmapped (h : PagesOk U k) (hpresent : (k.ivPtes i).present = false) :
    k.pageTable i = none := by
  cases hentry : k.pageTable i with
  | none => rfl
  | some entry =>
    have hmapped := (h.mapped i entry.1 entry.2 hentry).1
    rw [hpresent] at hmapped
    exact absurd hmapped Bool.false_ne_true

theorem fill (h : PagesOk U k) (hi : i < k.ivPages) (hpresent : (k.ivPtes i).present = false)
    (hpage : (k.ivPtes i).page = 0) (hp : p ∈ k.freePages) (pte : ShadowPTE)
    (hpte : pte.page = p) (hidle : k.ivMsgHdlrs = false → pte.present = true) :
    PagesOk U ((k.allocatePage p).setPte i pte) := by
  have hp0 : p ≠ 0 := Nat.ne_of_gt (h.bound_of_free hp).1
  refine ⟨h.nodup, h.page, ?_, ?_, ?_, ?_, ?_⟩
  · have hsum := (k.allocatePage p).sptePages_setPte hi pte
    have hold : ((k.allocatePage p).ivPtes i).pages = 0 := if_pos hpage
    rw [hold, add_zero, ShadowPTE.pages, hpte, if_neg hp0] at hsum
    rw [hsum, ← h.partition]
    have hfree : k.freePages = k.freePages.erase p + {p} := by
      rw [add_comm, Multiset.singleton_add, Multiset.cons_erase hp]
    change k.freePages.erase p + k.otherPages + (k.sptePages + {p}) + k.recordPages = _
    nth_rewrite 2 [hfree]
    abel
  · intro j hj
    have hne : j ≠ i := fun heq => absurd hi (not_lt.mpr (heq ▸ hj))
    simpa [Kernel.setPte, Kernel.allocatePage, hne] using h.outside j hj
  · intro j hj
    by_cases hne : j = i
    · subst hne
      simp only [Kernel.setPte, update_self]
      rw [hpte]
      exact hp0
    · simp only [Kernel.setPte, update_of_ne hne] at hj ⊢
      exact h.present j hj
  · intro hno j hj
    by_cases hne : j = i
    · subst hne
      simp only [Kernel.setPte, update_self] at hj
      rw [hidle hno] at hj
      exact absurd hj.symm Bool.false_ne_true
    · simp only [Kernel.setPte, update_of_ne hne] at hj ⊢
      exact h.idle hno j hj
  · intro j q w hj
    have hentry : k.pageTable j = some (q, w) := hj
    have hne : j ≠ i := by
      intro heq
      rw [heq, h.unmapped hpresent] at hentry
      exact absurd hentry (by simp)
    simp only [Kernel.setPte, update_of_ne hne]
    exact h.mapped j q w hentry

theorem takePage (h : PagesOk U k) (hi : i < k.ivPages) (hpresent : (k.ivPtes i).present = false)
    (hpage : (k.ivPtes i).page = 0) (hp : p ∈ k.freePages) (hhdlrs : k.ivMsgHdlrs = true) :
    PagesOk U (k.takePage i p) := by
  refine h.fill hi hpresent hpage hp _ (Nat.mod_eq_of_lt (h.bound_of_free hp).2) fun hno => ?_
  rw [hhdlrs] at hno
  exact absurd hno.symm Bool.false_ne_true

theorem zeroPage (h : PagesOk U k) (hi : i < k.ivPages) (hpresent : (k.ivPtes i).present = false)
    (hpage : (k.ivPtes i).page = 0) (hp : p ∈ k.freePages) :
    PagesOk U ((k.takePage i p).zeroPage i p) := by
  have hfill := h.fill hi hpresent hpage hp
    { (k.ivPtes i).setPage p with present := true }
    (Nat.mod_eq_of_lt (h.bound_of_free hp).2) fun _ => rfl
  refine hfill.congr ?_ rfl rfl rfl rfl rfl rfl
  simp [Kernel.zeroPage, Kernel.takePage, Kernel.setPte, Kernel.allocatePage]

theorem resolveFault (h : PagesOk U k) (hi : i < k.ivPages)
    (halloc : ∀ p, alloc = some p → p ∈ k.freePages) :
    ∃ k', k.resolveFault task i alloc = some k' ∧ Resolved task i k k' := by
  rw [Kernel.resolveFault]
  by_cases hpresent : (k.ivPtes i).present = true
  · rw [if_pos hpresent]
    obtain ⟨k', hmap, -, rfl⟩ := h.mapPage hpresent
    exact ⟨_, hmap, .mapped hpresent⟩
  · rw [if_neg hpresent]
    rw [Bool.not_eq_true] at hpresent
    by_cases hhdlrs : k.ivMsgHdlrs = true
    · rw [if_pos hhdlrs]
      unfold Kernel.readFault
      by_cases hpage : (k.ivPtes i).page = 0
      · rw [if_pos hpage]
        cases alloc with
        | none => exact ⟨k, rfl, .nothing⟩
        | some p => exact ⟨_, rfl, .allocated p hpresent hpage (halloc p rfl) hhdlrs⟩
      · rw [if_neg hpage]
        exact ⟨_, rfl, .requested hpresent hpage hhdlrs⟩
    · rw [if_neg hhdlrs]
      unfold Kernel.zeroFault
      rw [Bool.not_eq_true] at hhdlrs
      have hpage := h.idle hhdlrs i hpresent
      split_ifs
      · cases alloc with
        | none => exact ⟨k, rfl, .nothing⟩
        | some p =>
          have hp := halloc p rfl
          have hzero := h.zeroPage hi hpresent hpage hp
          obtain ⟨k', hmap, -, rfl⟩ := hzero.mapPage (i := i)
            (by simp [Kernel.zeroPage, Kernel.setPte])
          refine ⟨_, ?_, .zeroed p _ hpresent hpage hp hhdlrs rfl⟩
          rw [← hmap]
          simp [Kernel.zeroPage, Kernel.takePage, Kernel.setPte, Kernel.allocatePage]
      · exact ⟨k, rfl, .nothing⟩

theorem resolved (h : PagesOk U k) (hi : i < k.ivPages) (hr : Resolved task i k k') :
    PagesOk U k' := by
  cases hr with
  | nothing => exact h
  | mapped hpresent =>
    obtain ⟨k', -, hok, rfl⟩ := h.mapPage hpresent
    exact hok
  | requested => exact h.congr rfl rfl rfl rfl rfl rfl rfl
  | allocated p hpresent hpage hp hhdlrs =>
    exact (h.takePage hi hpresent hpage hp hhdlrs).congr rfl rfl rfl rfl rfl rfl rfl
  | zeroed p k1 hpresent hpage hp hhdlrs hk1 =>
    subst hk1
    obtain ⟨k', -, hok, rfl⟩ := (h.zeroPage hi hpresent hpage hp).mapPage (i := i)
      (by simp [Kernel.zeroPage, Kernel.setPte])
    exact hok

end PagesOk

theorem Kernel.updateRefCount_eq (k : Kernel) (i : Nat) (referenced : Bool) :
    ∃ ptes, k.updateRefCount i referenced = { k with ivPtes := ptes } ∧
      ∀ j, ∃ n, ptes j = { k.ivPtes j with lastAccess := n } := by
  have hset : ∀ n, ∃ ptes, k.setPte i { k.ivPtes i with lastAccess := n }
      = { k with ivPtes := ptes } ∧ ∀ j, ∃ n, ptes j = { k.ivPtes j with lastAccess := n } := by
    intro n
    refine ⟨_, rfl, fun j => ?_⟩
    by_cases hj : j = i
    · subst hj
      exact ⟨n, update_self _ _ _⟩
    · exact ⟨(k.ivPtes j).lastAccess, update_of_ne hj _ _⟩
  rw [Kernel.updateRefCount]
  split_ifs
  · exact hset 0
  · exact hset _
  · exact ⟨k.ivPtes, rfl, fun j => ⟨_, rfl⟩⟩
  · exact ⟨k.ivPtes, rfl, fun j => ⟨_, rfl⟩⟩

/-! ## Responses -/

/-- `attachSPTE` when it does not trip an assert. -/
def Kernel.attached (k : Kernel) (i : Nat) : Kernel :=
  { k.setPte i { k.ivPtes i with present := true } with
    pageTable := update k.pageTable i (k.ivPtes i).entry }

namespace PagesOk

variable {U : Multiset Nat} {k k' : Kernel} {i key : Nat}

/-- A response to a read attaches the page without tripping an assert. -/
theorem attachSPTE (h : PagesOk U k) (hi : i < k.ivPages) (hpage : (k.ivPtes i).page ≠ 0) :
    k.attachSPTE i = some (k.attached i) ∧ PagesOk U (k.attached i) := by
  have hset : PagesOk U (k.setPte i { k.ivPtes i with present := true }) := by
    refine h.setPte rfl hi (fun _ => hpage) (fun _ hno => ?_) ?_
    · exact absurd hno.symm Bool.false_ne_true
    · intro p w hentry
      exact ⟨rfl, (h.mapped i p w hentry).2.2⟩
  obtain ⟨k', hmap, hok, heq⟩ := hset.mapPage (i := i) (by simp [Kernel.setPte])
  have hk' : k' = k.attached i := by
    rw [heq]
    simp [Kernel.attached, Kernel.setPte, ShadowPTE.entry, ShadowPTE.mapWritable]
  rw [← hk']
  exact ⟨hmap, hok⟩

theorem completeRemoval (h : PagesOk U k) (key : Nat) : PagesOk U (k.completeRemoval key).2 := by
  rw [Kernel.completeRemoval]
  cases hfind : k.ivVa2paList.find? (fun node => node.key = key) with
  | none => exact h
  | some node =>
    refine ⟨h.nodup, h.page, ?_, h.outside, h.present, h.idle, h.mapped⟩
    have hmem : node ∈ (k.ivVa2paList : Multiset PageAddrNode) := List.mem_of_find?_eq_some hfind
    have hrecord : k.recordPages
        = {node.pageAddr} + ((k.ivVa2paList : Multiset PageAddrNode).erase node).map
          PageAddrNode.pageAddr := by
      rw [Kernel.recordPages, Multiset.singleton_add, ← Multiset.map_cons, Multiset.cons_erase hmem]
    rw [← h.partition, hrecord]
    change node.pageAddr ::ₘ k.freePages + k.otherPages + k.sptePages
      + ((k.ivVa2paList.erase node : List PageAddrNode) : Multiset PageAddrNode).map
          PageAddrNode.pageAddr = _
    rw [← Multiset.coe_erase, ← Multiset.singleton_add]
    abel

end PagesOk

end Hostboot.Vmm
