import Hostboot.PageMgr.Partition

/-!
# The page manager and the kernel reserve

`PageManager` of `src/kernel/pagemgr.C` has two cores.  The main heap serves
every request, and a reserve of ten pages serves the kernel when the main heap
has no block.  A free goes to the main heap, and the reserve is then filled up
by one page.  Next to the page counts of the two cores the manager keeps a
count of its own, `iv_pagesAvail`, which `queryAvail` compares with the pages
ever added.

A client frees an extent it was given, or a part of one.  The requests to
evict pages and the lowest page count, which is for debug output, are left
out.
-/

namespace Hostboot.PageMgr

open Hostboot.Lib List

/-- `PageManager::KERNEL_HEAP_RESERVED_PAGES`. -/
def KERNEL_HEAP_RESERVED_PAGES : Nat := 10

/-- The state of a `PageManager`. -/
structure PageManager where
  ivPagesAvail : Nat
  ivPagesTotal : Nat
  ivHeap : PageManagerCore
  ivHeapKernel : PageManagerCore

namespace PageManager

/-- `PageManager::_initialize` with the ranges behind the base image, as start
address and pages. -/
def initRanges (ranges : List (Nat × Nat)) : Option PageManager :=
  (ranges.foldlM (fun heap r => PageManagerCore.addMemory heap r.1 r.2)
    (PageManagerCore.init true)).bind fun heap =>
      let totalPages := ranges.foldl (fun total r => add64 total r.2) 0
      let reserved := heap.allocatePage KERNEL_HEAP_RESERVED_PAGES
      ((PageManagerCore.init false).addMemory (reserved.1.getD 0) KERNEL_HEAP_RESERVED_PAGES).map
        fun heapKernel => ⟨totalPages, totalPages, reserved.2, heapKernel⟩

/-- `PageManager::_allocatePage`.  A request of the kernel that finds no page
stops the machine, unless the caller allows it. -/
def allocatePage (s : PageManager) (n : Nat) (userspace allowOom : Bool) :
    Option (Option Nat × PageManager) :=
  let main := s.ivHeap.allocatePage n
  let s := { s with ivHeap := main.2 }
  let kernel := s.ivHeapKernel.allocatePage n
  let useReserve := main.1.isNone && !userspace
  let page := if useReserve then kernel.1 else main.1
  let s := if useReserve then { s with ivHeapKernel := kernel.2 } else s
  if page.isNone && !userspace && !allowOom then none
  else if page.isSome then some (page, { s with ivPagesAvail := sub64 s.ivPagesAvail n })
  else some (page, s)

/-- The end of `_freePage`: one page from the main heap to the reserve. -/
def fillReserve (s : PageManager) : Option PageManager :=
  if s.ivHeapKernel.ivAvailable < KERNEL_HEAP_RESERVED_PAGES then
    match s.ivHeap.allocatePage 1 with
    | (none, heap) => some { s with ivHeap := heap }
    | (some page, heap) =>
      (s.ivHeapKernel.addMemory page 1).map fun heapKernel =>
        { s with ivHeap := heap, ivHeapKernel := heapKernel }
  else some s

/-- `PageManager::_freePage`. -/
def freePage (s : PageManager) (p n : Nat) : Option PageManager :=
  { s with
    ivHeap := s.ivHeap.freePage p n false
    ivPagesAvail := add64 s.ivPagesAvail n }.fillReserve

/-- `PageManager::_coalesce`. -/
def coalesce (s : PageManager) : Option PageManager :=
  s.ivHeap.coalesce.map fun heap => { s with ivHeap := heap }

/-- `PageManager::_addMemory`. -/
def addMemory (s : PageManager) (addr pageCount : Nat) : Option PageManager :=
  (s.ivHeap.addMemory addr pageCount).map fun heap =>
    { s with
      ivHeap := heap
      ivPagesAvail := add64 s.ivPagesAvail pageCount
      ivPagesTotal := add64 s.ivPagesTotal pageCount }

/-- `PageManager::_queryAvail`: the free pages in percent. -/
def queryAvail (s : PageManager) : Nat := 100 * s.ivPagesAvail % 2 ^ 64 / s.ivPagesTotal

end PageManager

/-! ## A core that counts its free pages -/

/-- The blocks of a core are proper, and it counts them. -/
structure CoreOk (c : PageManagerCore) : Prop where
  blocks : c.BlocksOk
  available : c.ivAvailable = Multiset.card c.heapPages
  ranges : c.ivRanges ≠ []
  /-- There are fewer pages than the count can hold. -/
  small : Multiset.card c.heapPages ≤ 2 ^ 20

namespace CoreOk

variable {c c' : PageManagerCore} {n p : Nat}

theorem init (supportsCoalesce : Bool) : CoreOk (PageManagerCore.init supportsCoalesce) where
  blocks := by
    intro k p hp
    simp [PageManagerCore.init] at hp
  available := by
    simp [PageManagerCore.init, PageManagerCore.heapPages, Buckets.content_empty]
  ranges := by simp [PageManagerCore.init, MAX_HEAP_RANGES]
  small := by simp [PageManagerCore.init, PageManagerCore.heapPages, Buckets.content_empty]

theorem allocated (h : CoreOk c) (hn : 0 < n) (halloc : c.allocatePage n = (some p, c')) :
    PageManagerCore.Allocated c n p c' := by
  apply PageManagerCore.allocatePage_some h.blocks hn h.available.ge _ halloc
  have hsmall := h.small
  have hlt : (2 : Nat) ^ 20 < 2 ^ 64 := by decide
  rw [h.available]
  omega

theorem allocate (h : CoreOk c) (hn : 0 < n) (halloc : c.allocatePage n = (some p, c')) :
    CoreOk c' ∧ c'.ivAvailable + n = c.ivAvailable := by
  have hspec := h.allocated hn halloc
  have hcard : Multiset.card c'.heapPages + n = Multiset.card c.heapPages := by
    rw [← hspec.free, Multiset.card_add, card_pages]
  have hsmall := h.small
  have hlt : (2 : Nat) ^ 20 < 2 ^ 64 := by decide
  have havail : c'.ivAvailable = c.ivAvailable - n := by
    rw [hspec.available]
    apply sub64_of_le
    · rw [h.available]
      omega
    · rw [h.available]
      omega
  have hsum : c'.ivAvailable + n = c.ivAvailable := by
    rw [havail, h.available]
    omega
  refine ⟨⟨hspec.blocks, ?_, ?_, ?_⟩, hsum⟩
  · rw [h.available] at hsum
    omega
  · rw [hspec.ranges.1]
    exact h.ranges
  · omega

theorem grow (h : CoreOk c) (hblocks : c'.BlocksOk) (hfree : c'.heapPages = c.heapPages + pages p n)
    (havail : c'.ivAvailable = add64 c.ivAvailable n) (hranges : c'.ivRanges ≠ [])
    (hsmall : Multiset.card c'.heapPages ≤ 2 ^ 20) :
    CoreOk c' ∧ c'.ivAvailable = c.ivAvailable + n := by
  have hcard : Multiset.card c'.heapPages = Multiset.card c.heapPages + n := by
    rw [hfree, Multiset.card_add, card_pages]
  have hsum : c'.ivAvailable = c.ivAvailable + n := by
    rw [havail]
    apply add64_of_lt
    have hlt : (2 : Nat) ^ 20 < 2 ^ 64 := by decide
    rw [h.available]
    omega
  refine ⟨⟨hblocks, ?_, hranges, hsmall⟩, hsum⟩
  rw [hsum, h.available, hcard]

theorem freePage (h : CoreOk c) (hn : 0 < n) (hlt : n < 2 ^ BUCKETS) (hext : ExtentOk p n)
    (hsmall : Multiset.card c.heapPages + n ≤ 2 ^ 20) :
    CoreOk (c.freePage p n false) ∧ (c.freePage p n false).ivAvailable = c.ivAvailable + n := by
  have hspec := PageManagerCore.freePage_freed false h.blocks hn hlt hext
  apply h.grow hspec.blocks hspec.free hspec.available
  · rw [hspec.ranges.1]
    exact h.ranges
  · rw [hspec.free, Multiset.card_add, card_pages]
    exact hsmall

theorem addMemory (h : CoreOk c) (hext : ExtentOk p n) (hadd : c.addMemory p n = some c')
    (hsmall : Multiset.card c.heapPages + n ≤ 2 ^ 20) :
    CoreOk c' ∧ c'.ivAvailable = c.ivAvailable + n := by
  have hspec := PageManagerCore.addMemory_added h.blocks hext h.ranges hadd
  apply h.grow hspec.blocks hspec.free hspec.available
  · intro hnil
    have hlen := hspec.ranges_length
    rw [hnil] at hlen
    exact h.ranges (length_eq_zero_iff.mp hlen.symm)
  · rw [hspec.free, Multiset.card_add, card_pages]
    exact hsmall

end CoreOk

/-- A core with `coalesce` has the added ranges registered. -/
def RangesOk (c : PageManagerCore) (added : List (Nat × Nat)) : Prop :=
  c.ivSupportsCoalesce = true ∧ ∀ e ∈ added, (e.1, e.2 * PAGESIZE) ∈ c.ivRanges

theorem RangesOk.same {c c' : PageManagerCore} {added : List (Nat × Nat)} (h : RangesOk c added)
    (hsame : PageManagerCore.SameRanges c c') : RangesOk c' added := by
  unfold RangesOk
  rw [hsame.1, hsame.2]
  exact h

theorem RangesOk.addMemory {c c' : PageManagerCore} {added : List (Nat × Nat)} {addr n : Nat}
    (h : RangesOk c added) (hext : ∀ e ∈ added, ExtentOk e.1 e.2)
    (hadded : PageManagerCore.Added c addr n c') : RangesOk c' ((addr, n) :: added) := by
  obtain ⟨hnew, hold⟩ := hadded.registered h.1
  constructor
  · rw [hadded.supports]
    exact h.1
  · intro e he
    rcases mem_cons.mp he with rfl | he
    · exact hnew
    · exact hold _ (h.2 e he) (hext e he).pos.ne'

/-! ## The manager and its clients -/

/-- A page manager and what its clients remember. -/
structure ManagerSys where
  pm : PageManager
  /-- The extents handed out and not yet freed, as start address and pages. -/
  outstanding : List (Nat × Nat)
  /-- The ranges added so far, as start address and pages. -/
  added : List (Nat × Nat)

/-- A call of a client. -/
inductive ManagerOp where
  | allocatePage (n : Nat) (userspace allowOom : Bool)
  | freePage (p n : Nat)
  | addMemory (addr pageCount : Nat)
  | coalesce
  deriving DecidableEq, Repr

/-- A free of a null pointer. -/
def ManagerOp.nullFree : ManagerOp → Prop
  | .freePage p n => p = 0 ∧ n ≠ 0
  | _ => False

/-- One call of a client.  A free of an extent inside an outstanding one leaves
the parts below and above it.  A free of nothing is allowed. -/
inductive ManagerStep : ManagerSys → ManagerOp → ManagerSys → Prop
  | allocatePage {s : ManagerSys} {n : Nat} {userspace allowOom : Bool} {page : Option Nat}
      {pm : PageManager} :
      1 ≤ n → s.pm.allocatePage n userspace allowOom = some (page, pm) →
      ManagerStep s (.allocatePage n userspace allowOom)
        { s with pm := pm, outstanding := page.toList.map (·, n) ++ s.outstanding }
  | freePage {s : ManagerSys} {e : Nat × Nat} {below n above : Nat} {pm : PageManager} :
      e ∈ s.outstanding → e.2 = below + (n + above) → 0 < n →
      s.pm.freePage (e.1 + below * PAGESIZE) n = some pm →
      ManagerStep s (.freePage (e.1 + below * PAGESIZE) n)
        { s with
          pm := pm
          outstanding := (e.1, below) :: (e.1 + below * PAGESIZE + n * PAGESIZE, above) ::
            s.outstanding.erase e }
  | freeNothing {s : ManagerSys} {p n : Nat} {pm : PageManager} :
      p = 0 ∨ n = 0 → s.pm.freePage p n = some pm →
      ManagerStep s (.freePage p n) { s with pm := pm }
  | addMemory {s : ManagerSys} {addr n : Nat} {pm : PageManager} :
      ExtentOk addr n → (∀ r ∈ s.added, Apart (addr, n) r) →
      s.pm.addMemory addr n = some pm →
      ManagerStep s (.addMemory addr n) { s with pm := pm, added := (addr, n) :: s.added }
  | coalesce {s : ManagerSys} {pm : PageManager} :
      s.pm.coalesce = some pm → ManagerStep s .coalesce { s with pm := pm }

/-- A call that does not free a null pointer. -/
def NonNullStep (s : ManagerSys) (op : ManagerOp) (s' : ManagerSys) : Prop :=
  ManagerStep s op s' ∧ ¬ op.nullFree

/-- The start of the manager: the ranges behind the base image do not overlap,
and the reserve for the kernel was found. -/
structure Boot where
  ranges : List (Nat × Nat)
  extents : ∀ r ∈ ranges, ExtentOk r.1 r.2
  apart : ranges.Pairwise Apart
  heap : PageManagerCore
  heap_eq : ranges.foldlM (fun heap r => PageManagerCore.addMemory heap r.1 r.2)
    (PageManagerCore.init true) = some heap
  page : Nat
  page_eq : (heap.allocatePage KERNEL_HEAP_RESERVED_PAGES).1 = some page
  pm : PageManager
  pm_eq : PageManager.initRanges ranges = some pm

/-- The start of a run. -/
def Boot.sys (b : Boot) : ManagerSys := ⟨b.pm, [], b.ranges⟩

/-- The two cores and the outstanding extents share out the memory, and the
manager counts what the cores have. -/
structure ManagerInv (s : ManagerSys) : Prop where
  heap : CoreOk s.pm.ivHeap
  kernel : CoreOk s.pm.ivHeapKernel
  ranges : RangesOk s.pm.ivHeap s.added
  partition : s.pm.ivHeap.heapPages + s.pm.ivHeapKernel.heapPages + extentPages s.outstanding
    = extentPages s.added
  nodup : (extentPages s.added).Nodup
  avail : s.pm.ivPagesAvail = s.pm.ivHeap.ivAvailable + s.pm.ivHeapKernel.ivAvailable
  total : s.pm.ivPagesTotal = Multiset.card (extentPages s.added)
  outstanding : ∀ e ∈ s.outstanding, ExtentOk e.1 e.2 ∧ e.2 < 2 ^ BUCKETS
  added : ∀ e ∈ s.added, ExtentOk e.1 e.2

section Invariant

variable {s s' : ManagerSys} {pm : PageManager} {n : Nat}

theorem card_added_le {added : List (Nat × Nat)} (hnodup : (extentPages added).Nodup)
    (hext : ∀ e ∈ added, ExtentOk e.1 e.2) : Multiset.card (extentPages added) ≤ 2 ^ 20 := by
  have hsub : extentPages added ⊆ Multiset.range (2 ^ 20) := by
    intro x hx
    obtain ⟨e, he, hxe⟩ := mem_extentPages.mp hx
    exact Multiset.mem_range.mpr ((hext e he).page_lt hxe)
  have hle := Multiset.card_le_card ((Multiset.le_iff_subset hnodup).mpr hsub)
  rwa [Multiset.card_range] at hle

theorem ManagerInv.card_eq (h : ManagerInv s) :
    Multiset.card s.pm.ivHeap.heapPages + Multiset.card s.pm.ivHeapKernel.heapPages
      + Multiset.card (extentPages s.outstanding) = Multiset.card (extentPages s.added) := by
  rw [← h.partition, Multiset.card_add, Multiset.card_add]

theorem ManagerInv.card_le (h : ManagerInv s) :
    Multiset.card s.pm.ivHeap.heapPages + Multiset.card s.pm.ivHeapKernel.heapPages
      + Multiset.card (extentPages s.outstanding) ≤ 2 ^ 20 := by
  rw [h.card_eq]
  exact card_added_le h.nodup h.added

theorem ManagerInv.pagesAvail_eq (h : ManagerInv s) : s.pm.ivPagesAvail
    = Multiset.card s.pm.ivHeap.heapPages + Multiset.card s.pm.ivHeapKernel.heapPages := by
  rw [h.avail, h.heap.available, h.kernel.available]

theorem nodup_extentPages_cons {addr : Nat} {added : List (Nat × Nat)}
    (hnodup : (extentPages added).Nodup) (hadded : ∀ e ∈ added, ExtentOk e.1 e.2)
    (hext : ExtentOk addr n) (hapart : ∀ r ∈ added, Apart (addr, n) r) :
    (extentPages ((addr, n) :: added)).Nodup := by
  rw [extentPages_cons]
  refine (nodup_pages addr n).add_iff hnodup |>.mpr ?_
  rw [Multiset.disjoint_left]
  intro x hx hx'
  obtain ⟨e, he, hxe⟩ := mem_extentPages.mp hx'
  exact Multiset.disjoint_left.mp
    (disjoint_pages (a := (addr, n)) hext (hadded e he) (hapart e he)) hx hxe

/-! ## One lemma for each call -/

theorem ManagerInv.taken (h : ManagerInv s) {p : Nat} {heap kernel : PageManagerCore}
    (hheap : CoreOk heap) (hkernel : CoreOk kernel) (hranges : RangesOk heap s.added)
    (hfree : heap.heapPages + kernel.heapPages + pages p n
      = s.pm.ivHeap.heapPages + s.pm.ivHeapKernel.heapPages)
    (hext : ExtentOk p n) (hlt : n < 2 ^ BUCKETS) :
    ManagerInv { s with
      pm := { s.pm with
        ivHeap := heap
        ivHeapKernel := kernel
        ivPagesAvail := sub64 s.pm.ivPagesAvail n }
      outstanding := (p, n) :: s.outstanding } := by
  have hcard := congrArg Multiset.card hfree
  simp only [Multiset.card_add, card_pages] at hcard
  have hle := h.card_le
  refine ⟨hheap, hkernel, hranges, ?_, h.nodup, ?_, h.total, ?_, h.added⟩
  · rw [extentPages_cons, ← h.partition, ← hfree]
    abel
  · show sub64 s.pm.ivPagesAvail n = heap.ivAvailable + kernel.ivAvailable
    rw [h.pagesAvail_eq, hheap.available, hkernel.available, sub64_of_le (by omega) (by omega)]
    omega
  · intro e he
    rcases mem_cons.mp he with rfl | he
    · exact ⟨hext, hlt⟩
    · exact h.outstanding e he

theorem ManagerInv.allocatePage (h : ManagerInv s) {userspace allowOom : Bool}
    {page : Option Nat} (hn : 1 ≤ n)
    (halloc : s.pm.allocatePage n userspace allowOom = some (page, pm)) :
    ManagerInv { s with pm := pm, outstanding := page.toList.map (·, n) ++ s.outstanding } := by
  have hsmall : 2 ^ (BUCKETS - 1) < 2 ^ BUCKETS := by decide
  unfold PageManager.allocatePage at halloc
  cases hmain : s.pm.ivHeap.allocatePage n with
  | mk main heap =>
  cases hkernel : s.pm.ivHeapKernel.allocatePage n with
  | mk second kernel =>
  simp only [hmain, hkernel] at halloc
  cases main with
  | some p =>
    -- the main heap serves the request
    have hspec := h.heap.allocated hn hmain
    have hle := hspec.le
    simp only [Option.isNone_some, Option.isSome_some, Bool.false_and, Bool.false_eq_true,
      if_false, if_true, Option.some.injEq, Prod.mk.injEq] at halloc
    obtain ⟨rfl, rfl⟩ := halloc
    apply h.taken (h.heap.allocate hn hmain).1 h.kernel (h.ranges.same hspec.ranges) _
      hspec.extent (by omega)
    rw [← hspec.free]
    abel
  | none =>
    obtain rfl := PageManagerCore.allocatePage_none hmain
    cases userspace with
    | true =>
      simp only [Option.isNone_none, Option.isSome_none, Bool.not_true, Bool.and_false,
        Bool.false_and, Bool.false_eq_true, if_false, Option.some.injEq, Prod.mk.injEq] at halloc
      obtain ⟨rfl, rfl⟩ := halloc
      exact h
    | false =>
      cases second with
      | some p =>
        -- the reserve serves the request
        have hspec := h.kernel.allocated hn hkernel
        have hle := hspec.le
        simp only [Option.isNone_none, Option.isNone_some, Option.isSome_some, Bool.not_false,
          Bool.and_true, Bool.false_and, Bool.false_eq_true, if_false, if_true,
          Option.some.injEq, Prod.mk.injEq] at halloc
        obtain ⟨rfl, rfl⟩ := halloc
        apply h.taken h.heap (h.kernel.allocate hn hkernel).1 h.ranges _ hspec.extent (by omega)
        rw [← hspec.free]
        abel
      | none =>
        obtain rfl := PageManagerCore.allocatePage_none hkernel
        cases allowOom with
        | false => simp at halloc
        | true =>
          simp only [Option.isNone_none, Option.isSome_none, Bool.not_false, Bool.not_true,
            Bool.and_true, Bool.and_false, Bool.false_eq_true, if_false, if_true,
            Option.some.injEq, Prod.mk.injEq] at halloc
          obtain ⟨rfl, rfl⟩ := halloc
          exact h

theorem ManagerInv.fillReserve (h : ManagerInv s) (hfill : s.pm.fillReserve = some pm) :
    ManagerInv { s with pm := pm } := by
  unfold PageManager.fillReserve at hfill
  split at hfill
  · cases halloc : s.pm.ivHeap.allocatePage 1 with
    | mk page heap =>
    cases page with
    | none =>
      obtain rfl := PageManagerCore.allocatePage_none halloc
      simp only [halloc, Option.some.injEq] at hfill
      subst hfill
      exact h
    | some p =>
      simp only [halloc] at hfill
      obtain ⟨kernel, hadd, rfl⟩ := Option.map_eq_some_iff.mp hfill
      have hspec := h.heap.allocated Nat.one_pos halloc
      have hheap := h.heap.allocate Nat.one_pos halloc
      have hcard := congrArg Multiset.card hspec.free
      simp only [Multiset.card_add, card_pages] at hcard
      have hle := h.card_le
      have hkernel := h.kernel.addMemory hspec.extent hadd (by omega)
      have hadded := PageManagerCore.addMemory_added h.kernel.blocks hspec.extent
        h.kernel.ranges hadd
      refine ⟨hheap.1, hkernel.1, h.ranges.same hspec.ranges, ?_, h.nodup, ?_, h.total,
        h.outstanding, h.added⟩
      · show heap.heapPages + kernel.heapPages + extentPages s.outstanding = extentPages s.added
        rw [hadded.free, ← h.partition, ← hspec.free]
        abel
      · show s.pm.ivPagesAvail = heap.ivAvailable + kernel.ivAvailable
        rw [h.avail, hkernel.2, ← hheap.2]
        omega
  · obtain rfl := Option.some.inj hfill
    exact h

theorem freePage_nothing (c : PageManagerCore) {p : Nat} (h : p = 0 ∨ n = 0) :
    c.freePage p n false = c := by
  unfold PageManagerCore.freePage
  cases n with
  | zero => rfl
  | succ n =>
    unfold PageManagerCore.freePageLoop
    exact if_pos h

theorem ManagerInv.freeNothing (h : ManagerInv s) {p : Nat} (hn : n = 0)
    (hfree : s.pm.freePage p n = some pm) : ManagerInv { s with pm := pm } := by
  subst hn
  unfold PageManager.freePage at hfree
  rw [freePage_nothing _ (Or.inr rfl)] at hfree
  have hsame : add64 s.pm.ivPagesAvail 0 = s.pm.ivPagesAvail := by
    apply add64_of_lt
    have hle := h.card_le
    rw [h.pagesAvail_eq]
    omega
  rw [hsame] at hfree
  exact h.fillReserve hfree

theorem ManagerInv.freePage (h : ManagerInv s) {e : Nat × Nat} {below above : Nat}
    (he : e ∈ s.outstanding) (hsplit : e.2 = below + (n + above)) (hn : 0 < n)
    (hfree : s.pm.freePage (e.1 + below * PAGESIZE) n = some pm) :
    ManagerInv { s with
      pm := pm
      outstanding := (e.1, below) :: (e.1 + below * PAGESIZE + n * PAGESIZE, above) ::
        s.outstanding.erase e } := by
  obtain ⟨hext, hlt⟩ := h.outstanding e he
  rw [hsplit] at hext hlt
  have hmiddle := hext.right.left
  have hcarderase := congrArg Multiset.card (extentPages_erase he)
  simp only [Multiset.card_add, card_pages] at hcarderase
  have hle := h.card_le
  have hheap := h.heap.freePage hn (by omega) hmiddle (by omega)
  have hspec := PageManagerCore.freePage_freed false h.heap.blocks hn (by omega) hmiddle
  have hfreed : ManagerInv
      { pm := { s.pm with
          ivHeap := s.pm.ivHeap.freePage (e.1 + below * PAGESIZE) n false
          ivPagesAvail := add64 s.pm.ivPagesAvail n }
        outstanding := (e.1, below) :: (e.1 + below * PAGESIZE + n * PAGESIZE, above) ::
          s.outstanding.erase e
        added := s.added } := by
    refine ⟨hheap.1, h.kernel, h.ranges.same hspec.ranges, ?_, h.nodup, ?_, h.total, ?_, h.added⟩
    · show PageManagerCore.heapPages (s.pm.ivHeap.freePage (e.1 + below * PAGESIZE) n false)
        + _ + _ = _
      rw [hspec.free, extentPages_cons, extentPages_cons, ← h.partition, ← extentPages_erase he,
        hsplit, pages_add e.1 below, pages_add (e.1 + below * PAGESIZE) n]
      abel
    · show add64 s.pm.ivPagesAvail n = _
      rw [h.pagesAvail_eq, add64_of_lt (by omega)]
      show _ = PageManagerCore.ivAvailable
        (s.pm.ivHeap.freePage (e.1 + below * PAGESIZE) n false) + _
      rw [hheap.2, h.heap.available, h.kernel.available]
      omega
    · intro e' he'
      rcases mem_cons.mp he' with rfl | he'
      · exact ⟨hext.left, by omega⟩
      rcases mem_cons.mp he' with rfl | he'
      · exact ⟨hext.right.right, by omega⟩
      · exact h.outstanding e' (mem_of_mem_erase he')
  exact hfreed.fillReserve hfree

theorem ManagerInv.addMemory (h : ManagerInv s) {addr : Nat} (hext : ExtentOk addr n)
    (hapart : ∀ r ∈ s.added, Apart (addr, n) r) (hadd : s.pm.addMemory addr n = some pm) :
    ManagerInv { s with pm := pm, added := (addr, n) :: s.added } := by
  unfold PageManager.addMemory at hadd
  obtain ⟨heap, hheap, rfl⟩ := Option.map_eq_some_iff.mp hadd
  have hnodup := nodup_extentPages_cons h.nodup h.added hext hapart
  have hok : ∀ e ∈ (addr, n) :: s.added, ExtentOk e.1 e.2 := by
    intro e he
    rcases mem_cons.mp he with rfl | he
    · exact hext
    · exact h.added e he
  have hcard := card_added_le hnodup hok
  rw [extentPages_cons, Multiset.card_add, card_pages, ← h.card_eq] at hcard
  have hcore := h.heap.addMemory hext hheap (by omega)
  have hspec := PageManagerCore.addMemory_added h.heap.blocks hext h.heap.ranges hheap
  refine ⟨hcore.1, h.kernel, h.ranges.addMemory h.added hspec, ?_, hnodup, ?_, ?_,
    h.outstanding, hok⟩
  · show heap.heapPages + _ + _ = _
    rw [hspec.free, extentPages_cons, ← h.partition]
    abel
  · show add64 s.pm.ivPagesAvail n = heap.ivAvailable + s.pm.ivHeapKernel.ivAvailable
    rw [h.pagesAvail_eq, add64_of_lt (by omega), hcore.2, h.heap.available, h.kernel.available]
    omega
  · show add64 s.pm.ivPagesTotal n = _
    rw [h.total, add64_of_lt (by rw [← h.card_eq]; omega), extentPages_cons, Multiset.card_add,
      card_pages]
    omega

theorem ManagerInv.covered (h : ManagerInv s) :
    PageManagerCore.Covered s.pm.ivHeap.ivRanges s.pm.ivHeap.heapPages := by
  intro x hx
  have hadded : x ∈ extentPages s.added := by
    rw [← h.partition, Multiset.mem_add, Multiset.mem_add]
    exact Or.inl (Or.inl hx)
  obtain ⟨e, he, hxe⟩ := mem_extentPages.mp hadded
  obtain ⟨h1, h2⟩ := mem_pages.mp hxe
  have hal := (h.added e he).aligned
  refine ⟨_, h.ranges.2 e he, ?_⟩
  unfold PAGESIZE at *
  dsimp only
  omega

theorem ManagerInv.coalesce (h : ManagerInv s) (hco : s.pm.coalesce = some pm) :
    ManagerInv { s with pm := pm } := by
  unfold PageManager.coalesce at hco
  obtain ⟨heap, hheap, rfl⟩ := Option.map_eq_some_iff.mp hco
  obtain ⟨heap', hheap', hspec⟩ :=
    PageManagerCore.coalesce_regrouped h.heap.blocks fun _ => h.covered
  rw [hheap] at hheap'
  obtain rfl := Option.some.inj hheap'
  have hfree : heap.heapPages = s.pm.ivHeap.heapPages := by rw [hspec.free, add_zero]
  refine ⟨⟨hspec.blocks, ?_, ?_, ?_⟩, h.kernel, h.ranges.same hspec.ranges, ?_, h.nodup, ?_,
    h.total, h.outstanding, h.added⟩
  · rw [hspec.available, hfree]
    exact h.heap.available
  · rw [hspec.ranges.1]
    exact h.heap.ranges
  · rw [hfree]
    exact h.heap.small
  · rw [hfree]
    exact h.partition
  · show s.pm.ivPagesAvail = heap.ivAvailable + s.pm.ivHeapKernel.ivAvailable
    rw [hspec.available]
    exact h.avail

theorem ManagerInv.step {op : ManagerOp} (h : ManagerInv s) (hstep : NonNullStep s op s') :
    ManagerInv s' := by
  obtain ⟨hstep, hnull⟩ := hstep
  cases hstep with
  | allocatePage hn halloc => exact h.allocatePage hn halloc
  | freePage he hsplit hn hfree => exact h.freePage he hsplit hn hfree
  | @freeNothing p n _ hzero hfree =>
    have hn : n = 0 := by
      by_contra hne
      rcases hzero with hp | hn
      · exact hnull ⟨hp, hne⟩
      · exact hne hn
    exact h.freeNothing hn hfree
  | addMemory hext hapart hadd => exact h.addMemory hext hapart hadd
  | coalesce hco => exact h.coalesce hco

end Invariant

/-! ## The start -/

theorem foldlM_addMemory {ranges added : List (Nat × Nat)} {c heap : PageManagerCore}
    (hcore : CoreOk c) (hfree : c.heapPages = extentPages added) (hranges : RangesOk c added)
    (hadded : ∀ e ∈ added, ExtentOk e.1 e.2) (hnodup : (extentPages added).Nodup)
    (hext : ∀ r ∈ ranges, ExtentOk r.1 r.2) (hpair : ranges.Pairwise Apart)
    (hapart : ∀ r ∈ ranges, ∀ e ∈ added, Apart e r)
    (hfold : ranges.foldlM (fun heap r => PageManagerCore.addMemory heap r.1 r.2) c = some heap) :
    CoreOk heap ∧ heap.heapPages = extentPages ranges + extentPages added ∧
      RangesOk heap (ranges ++ added) ∧ heap.heapPages.Nodup := by
  induction ranges generalizing c added with
  | nil =>
    obtain rfl := Option.some.inj hfold
    refine ⟨hcore, ?_, hranges, ?_⟩
    · rw [hfree, extentPages_nil, zero_add]
    · rw [hfree]
      exact hnodup
  | cons r ranges ih =>
    rw [foldlM_cons] at hfold
    obtain ⟨c', hadd, hfold⟩ := Option.bind_eq_some_iff.mp hfold
    have hr : ExtentOk r.1 r.2 := hext r (by simp)
    have hswap : ∀ e ∈ added, Apart (r.1, r.2) e :=
      fun e he => (hapart r (by simp) e he).symm
    have hspec := PageManagerCore.addMemory_added hcore.blocks hr hcore.ranges hadd
    have hnodup' := nodup_extentPages_cons hnodup hadded hr hswap
    have hok : ∀ e ∈ (r.1, r.2) :: added, ExtentOk e.1 e.2 := by
      intro e he
      rcases mem_cons.mp he with rfl | he
      · exact hr
      · exact hadded e he
    have hcard := card_added_le hnodup' hok
    rw [extentPages_cons, Multiset.card_add, card_pages, ← hfree] at hcard
    have hfree' : c'.heapPages = extentPages ((r.1, r.2) :: added) := by
      rw [hspec.free, hfree, extentPages_cons, add_comm]
    obtain ⟨hheap, hpages, hregistered, hnodup''⟩ := ih (hcore.addMemory hr hadd (by omega)).1
      hfree' (hranges.addMemory hadded hspec) hok hnodup'
      (fun r' hr' => hext r' (by simp [hr'])) (pairwise_cons.mp hpair).2 (by
        intro r' hr' e he
        rcases mem_cons.mp he with rfl | he
        · exact (pairwise_cons.mp hpair).1 r' hr'
        · exact hapart r' (by simp [hr']) e he) hfold
    refine ⟨hheap, ?_, ⟨hregistered.1, ?_⟩, hnodup''⟩
    · rw [hpages, extentPages_cons, extentPages_cons]
      abel
    · intro e he
      apply hregistered.2
      rcases mem_append.mp he with he | he
      · rcases mem_cons.mp he with rfl | he
        · exact mem_append_right _ (by simp)
        · exact mem_append_left _ he
      · exact mem_append_right _ (by simp [he])

theorem foldl_totalPages (ranges : List (Nat × Nat)) (total : Nat)
    (hlt : total + Multiset.card (extentPages ranges) < 2 ^ 64) :
    ranges.foldl (fun total r => add64 total r.2) total
      = total + Multiset.card (extentPages ranges) := by
  induction ranges generalizing total with
  | nil => simp
  | cons r ranges ih =>
    rw [extentPages_cons, Multiset.card_add, card_pages] at hlt ⊢
    rw [foldl_cons, add64_of_lt (by omega), ih _ (by omega)]
    omega

/-- The ranges of the base image are shared out between the main heap and the
reserve. -/
theorem Boot.inv (b : Boot) : ManagerInv b.sys := by
  have hnone : (PageManagerCore.init true).heapPages = extentPages [] := by
    simp [PageManagerCore.init, PageManagerCore.heapPages, Buckets.content_empty]
  obtain ⟨hcore, hpages, hranges, hnodup⟩ := foldlM_addMemory (CoreOk.init true) hnone
    ⟨rfl, by simp⟩ (by simp) (by simp) b.extents b.apart (by simp) b.heap_eq
  rw [extentPages_nil, add_zero] at hpages
  rw [append_nil] at hranges
  rw [hpages] at hnodup
  have hcard := card_added_le hnodup b.extents
  have halloc : b.heap.allocatePage KERNEL_HEAP_RESERVED_PAGES
      = (some b.page, (b.heap.allocatePage KERNEL_HEAP_RESERVED_PAGES).2) := by
    rw [← b.page_eq]
  have hten : 0 < KERNEL_HEAP_RESERVED_PAGES := by decide
  have hspec := hcore.allocated hten halloc
  have hheap := hcore.allocate hten halloc
  have hpm := b.pm_eq
  unfold PageManager.initRanges at hpm
  rw [b.heap_eq] at hpm
  dsimp only [Option.bind_some] at hpm
  rw [b.page_eq] at hpm
  obtain ⟨kernel, hadd, hpm⟩ := Option.map_eq_some_iff.mp hpm
  have hempty : (PageManagerCore.init false).heapPages = 0 := by
    simp [PageManagerCore.init, PageManagerCore.heapPages, Buckets.content_empty]
  have hkernel := (CoreOk.init false).addMemory hspec.extent hadd (by
    rw [hempty]
    decide)
  have hadded := PageManagerCore.addMemory_added (CoreOk.init false).blocks hspec.extent
    (CoreOk.init false).ranges hadd
  have htotal := foldl_totalPages b.ranges 0 (by omega)
  rw [zero_add] at htotal
  unfold Boot.sys
  rw [← hpm]
  refine ⟨hheap.1, hkernel.1, hranges.same hspec.ranges, ?_, hnodup, ?_, ?_, ?_, b.extents⟩
  · show _ + kernel.heapPages + extentPages [] = extentPages b.ranges
    rw [hadded.free, hempty, extentPages_nil, ← hpages, ← hspec.free]
    abel
  · show b.ranges.foldl _ 0 = PageManagerCore.ivAvailable
      (b.heap.allocatePage KERNEL_HEAP_RESERVED_PAGES).2 + kernel.ivAvailable
    rw [htotal, hkernel.2, ← hpages, ← hcore.available, ← hheap.2]
    simp [PageManagerCore.init]
  · exact htotal
  · intro e he
    cases he

/-! ## Runs -/

theorem managerInv_of_run {b : Boot} {ops : List ManagerOp} {s : ManagerSys}
    (hrun : Run NonNullStep b.sys ops s) : ManagerInv s :=
  hrun.invariant b.inv fun _ _ _ h hstep => h.step hstep

theorem ManagerInv.queryAvail_le {s : ManagerSys} (h : ManagerInv s) :
    s.pm.queryAvail ≤ 100 := by
  have hle := h.card_le
  have hcard := h.card_eq
  have havail := h.pagesAvail_eq
  unfold PageManager.queryAvail
  rw [Nat.mod_eq_of_lt (by omega)]
  apply Nat.div_le_of_le_mul
  rw [h.total, Nat.mul_comm]
  apply Nat.mul_le_mul_right
  omega

/-- In every run without a free of a null pointer the manager's count is the
sum of the counts of the two cores, and at most all pages are free. -/
theorem accounting_of_run {b : Boot} {ops : List ManagerOp} {s : ManagerSys}
    (hrun : Run NonNullStep b.sys ops s) :
    s.pm.ivPagesAvail = s.pm.ivHeap.ivAvailable + s.pm.ivHeapKernel.ivAvailable ∧
      s.pm.queryAvail ≤ 100 := by
  have h := managerInv_of_run hrun
  exact ⟨h.avail, h.queryAvail_le⟩

/-- A start with one range of 16 pages, ten of which are the reserve. -/
def sixteenPages : Boot where
  ranges := [(4096, 16)]
  extents := by
    intro r hr
    obtain rfl := mem_singleton.mp hr
    exact ⟨by decide, by decide, by decide⟩
  apart := pairwise_singleton _ _
  heap := _
  heap_eq := rfl
  page := _
  page_eq := rfl
  pm := _
  pm_eq := rfl

/-- A request of the kernel for eight pages is served from the reserve, and
the free of a page fills it up again. -/
theorem accounting_of_run_reserve : ∃ s, Run NonNullStep sixteenPages.sys
    [.allocatePage 8 false false, .freePage (4096 + 0 * PAGESIZE) 1] s ∧
    s.pm.ivPagesAvail = s.pm.ivHeap.ivAvailable + s.pm.ivHeapKernel.ivAvailable := by
  have hrun : ∃ s, Run NonNullStep sixteenPages.sys
      [.allocatePage 8 false false, .freePage (4096 + 0 * PAGESIZE) 1] s := by
    have halloc : ManagerStep sixteenPages.sys (.allocatePage 8 false false) _ :=
      .allocatePage (by decide) rfl
    refine ⟨_, .snoc (.snoc .nil ⟨halloc, id⟩)
      ⟨@ManagerStep.freePage _ (4096, 8) 0 1 7 _ (by decide) rfl (by decide) rfl, ?_⟩⟩
    rintro ⟨hzero, -⟩
    exact absurd hzero (by decide)
  obtain ⟨s, hrun⟩ := hrun
  exact ⟨s, hrun, (accounting_of_run hrun).1⟩

/-- A free of one page at null is counted by the manager only. -/
theorem count_after_null_free : ∃ s, Run ManagerStep sixteenPages.sys [.freePage 0 1] s ∧
    s.pm.ivPagesAvail = s.pm.ivHeap.ivAvailable + s.pm.ivHeapKernel.ivAvailable + 1 ∧
    100 < s.pm.queryAvail := by
  refine ⟨_, .snoc .nil (.freeNothing (Or.inl rfl) rfl), ?_, ?_⟩
  · decide
  · decide

end Hostboot.PageMgr
