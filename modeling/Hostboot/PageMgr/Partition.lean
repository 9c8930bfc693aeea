import Mathlib
import Hostboot.Lib.Run
import Hostboot.PageMgr.Pages

/-!
# The free pages and the outstanding extents partition the memory

The clients of a `PageManagerCore` add ranges of memory, allocate extents,
free extents they were given, and coalesce.  `Sys` is the core together with
what its clients remember: the ranges added so far and the extents that are
allocated and not yet freed.

`partition_of_run` is the result: after every run the pages in the free lists
and the pages of the outstanding extents are the pages ever added, each of
them once, and `iv_available` is the number of pages in the free lists.

A client adds a page-aligned range that overlaps no earlier one.  A range does
not start at null ("Hostboot cannot ever start the heap at an address of 0")
and lies below 4 GB, which is what the stack of the free lists asks of its
pointers.
-/

namespace Hostboot.PageMgr

open Hostboot.Lib

/-- A page manager core and what its clients remember. -/
structure Sys where
  core : PageManagerCore
  /-- The extents handed out and not yet freed, as start address and pages. -/
  outstanding : List (Nat × Nat)
  /-- The ranges added so far, as start address and pages. -/
  added : List (Nat × Nat)

/-- The start of a run: a fresh core. -/
def Sys.init (supportsCoalesce : Bool) : Sys :=
  ⟨PageManagerCore.init supportsCoalesce, [], []⟩

/-- A call of a client. -/
inductive Op where
  | addMemory (addr pageCount : Nat)
  | allocatePage (pageCount : Nat)
  | freePage (page pageCount : Nat)
  | coalesce

/-- The pages of a list of extents. -/
def extentPages (extents : List (Nat × Nat)) : Multiset Nat :=
  (extents.map fun e => pages e.1 e.2).sum

@[simp] theorem extentPages_nil : extentPages [] = 0 := rfl

@[simp] theorem extentPages_cons (e : Nat × Nat) (l : List (Nat × Nat)) :
    extentPages (e :: l) = pages e.1 e.2 + extentPages l := by
  simp [extentPages]

theorem extentPages_erase {e : Nat × Nat} {l : List (Nat × Nat)} (h : e ∈ l) :
    extentPages (l.erase e) + pages e.1 e.2 = extentPages l := by
  have hperm := (List.perm_cons_erase h).map fun e => pages e.1 e.2
  rw [extentPages, extentPages, hperm.sum_eq, List.map_cons, List.sum_cons, add_comm]

theorem mem_extentPages {l : List (Nat × Nat)} {x : Nat} :
    x ∈ extentPages l ↔ ∃ e ∈ l, x ∈ pages e.1 e.2 := by
  induction l with
  | nil => simp
  | cons e l ih => simp [ih]

/-- Two extents that share no page. -/
def Apart (a b : Nat × Nat) : Prop :=
  a.1 + a.2 * PAGESIZE ≤ b.1 ∨ b.1 + b.2 * PAGESIZE ≤ a.1

/-- One call of a client.  A call that trips a `kassert` has no step. -/
inductive Step : Sys → Op → Sys → Prop
  | addMemory {s : Sys} {addr n : Nat} {core : PageManagerCore} :
      ExtentOk addr n → (∀ r ∈ s.added, Apart (addr, n) r) →
      s.core.addMemory addr n = some core →
      Step s (.addMemory addr n) { s with core := core, added := (addr, n) :: s.added }
  | allocatePage {s : Sys} {n : Nat} {page : Option Nat} {core : PageManagerCore} :
      1 ≤ n → s.core.allocatePage n = (page, core) →
      Step s (.allocatePage n)
        { s with core := core, outstanding := page.toList.map (·, n) ++ s.outstanding }
  | freePage {s : Sys} {page n : Nat} :
      (page, n) ∈ s.outstanding →
      Step s (.freePage page n)
        { s with core := s.core.freePage page n false
                 outstanding := s.outstanding.erase (page, n) }
  | coalesce {s : Sys} {core : PageManagerCore} :
      s.core.coalesce = some core → Step s .coalesce { s with core := core }

/-- What holds between the core and its clients. -/
structure Inv (s : Sys) : Prop where
  blocks : s.core.BlocksOk
  partition : s.core.heapPages + extentPages s.outstanding = extentPages s.added
  nodup : (extentPages s.added).Nodup
  available : s.core.ivAvailable = Multiset.card s.core.heapPages
  outstanding : ∀ e ∈ s.outstanding, ExtentOk e.1 e.2 ∧ 0 < e.2 ∧ e.2 < 2 ^ BUCKETS
  added : ∀ e ∈ s.added, ExtentOk e.1 e.2
  ranges : s.core.ivRanges ≠ []
  registered : s.core.ivSupportsCoalesce = true →
    ∀ e ∈ s.added, (e.1, e.2 * PAGESIZE) ∈ s.core.ivRanges

theorem inv_init (supportsCoalesce : Bool) : Inv (Sys.init supportsCoalesce) where
  blocks := by intro k p hp; simp [Sys.init, PageManagerCore.init] at hp
  partition := by
    simp [Sys.init, PageManagerCore.init, PageManagerCore.heapPages, Buckets.content_empty]
  nodup := by simp [Sys.init]
  available := by
    simp [Sys.init, PageManagerCore.init, PageManagerCore.heapPages, Buckets.content_empty]
  outstanding := by simp [Sys.init]
  added := by simp [Sys.init]
  ranges := by simp [Sys.init, PageManagerCore.init, MAX_HEAP_RANGES]
  registered := by simp [Sys.init]

variable {s : Sys} {n : Nat} {core : PageManagerCore}

/-- There are at most as many pages as a 32-bit address space has, so the
page count never wraps. -/
theorem Inv.card_added_le (h : Inv s) :
    Multiset.card (extentPages s.added) ≤ 2 ^ 20 := by
  have hsub : extentPages s.added ⊆ Multiset.range (2 ^ 20) := by
    intro x hx
    obtain ⟨e, he, hxe⟩ := mem_extentPages.1 hx
    exact Multiset.mem_range.mpr ((h.added e he).page_lt hxe)
  have hle := Multiset.card_le_card ((Multiset.le_iff_subset h.nodup).mpr hsub)
  rwa [Multiset.card_range] at hle

theorem Inv.card_heap_le (h : Inv s) :
    Multiset.card s.core.heapPages ≤ Multiset.card (extentPages s.added) := by
  rw [← h.partition, Multiset.card_add]
  omega

theorem Inv.available_lt (h : Inv s) : s.core.ivAvailable < 2 ^ 64 := by
  have h1 := h.card_added_le
  have h2 := h.card_heap_le
  have h3 : (2 : Nat) ^ 20 < 2 ^ 64 := by decide
  rw [h.available]
  omega

theorem Inv.covered (h : Inv s) (hco : s.core.ivSupportsCoalesce = true) :
    PageManagerCore.Covered s.core.ivRanges s.core.heapPages := by
  intro x hx
  have hadded : x ∈ extentPages s.added := by
    rw [← h.partition]
    exact Multiset.mem_add.mpr (Or.inl hx)
  obtain ⟨e, he, hxe⟩ := mem_extentPages.1 hadded
  obtain ⟨h1, h2⟩ := mem_pages.mp hxe
  have hal := (h.added e he).aligned
  refine ⟨_, h.registered hco e he, ?_⟩
  unfold PAGESIZE at *
  dsimp only
  omega

theorem disjoint_pages {a b : Nat × Nat} (ha : ExtentOk a.1 a.2) (hb : ExtentOk b.1 b.2)
    (h : Apart a b) : Disjoint (pages a.1 a.2) (pages b.1 b.2) := by
  rw [Multiset.disjoint_left]
  intro x hxa hxb
  obtain ⟨h1, h2⟩ := mem_pages.mp hxa
  obtain ⟨h3, h4⟩ := mem_pages.mp hxb
  have h5 := ha.aligned
  have h6 := hb.aligned
  unfold Apart PAGESIZE at *
  omega

theorem nodup_pages (addr n : Nat) : (pages addr n).Nodup := by
  rw [pages, Multiset.coe_nodup]
  exact List.nodup_range'

/-! ## One lemma for each call -/

theorem inv_addMemory (h : Inv s) {addr : Nat} (hext : ExtentOk addr n)
    (hapart : ∀ r ∈ s.added, Apart (addr, n) r) (hadd : s.core.addMemory addr n = some core) :
    Inv { s with core := core, added := (addr, n) :: s.added } := by
  have hspec := PageManagerCore.addMemory_added h.blocks hext h.ranges hadd
  have hnodup : (extentPages ((addr, n) :: s.added)).Nodup := by
    rw [extentPages_cons]
    refine (nodup_pages addr n).add_iff h.nodup |>.mpr ?_
    rw [Multiset.disjoint_left]
    intro x hx hx'
    obtain ⟨e, he, hxe⟩ := mem_extentPages.1 hx'
    exact Multiset.disjoint_left.mp
      (disjoint_pages (a := (addr, n)) hext (h.added e he) (hapart e he)) hx hxe
  have hok : ∀ e ∈ (addr, n) :: s.added, ExtentOk e.1 e.2 := by
    intro e he
    rcases List.mem_cons.mp he with rfl | he
    · exact hext
    · exact h.added e he
  have hpart : core.heapPages + extentPages s.outstanding
      = extentPages ((addr, n) :: s.added) := by
    rw [hspec.free, extentPages_cons, ← h.partition]
    abel
  refine ⟨hspec.blocks, hpart, hnodup, ?_, h.outstanding, hok, ?_, ?_⟩
  · have hlen : n ≤ 2 ^ 20 := by
      have := hext.le
      unfold PAGESIZE at this
      omega
    have h1 := h.card_added_le
    have h2 := h.card_heap_le
    rw [hspec.available, hspec.free, Multiset.card_add, card_pages, h.available]
    exact add64_of_lt (by omega)
  · intro hnil
    have hlen := hspec.ranges_length
    rw [hnil] at hlen
    exact h.ranges (List.length_eq_zero_iff.mp hlen.symm)
  · intro hco e he
    rw [hspec.supports] at hco
    obtain ⟨hnew, hold⟩ := hspec.registered hco
    rcases List.mem_cons.mp he with rfl | he
    · exact hnew
    · exact hold _ (h.registered hco e he) (h.added e he).pos.ne'

theorem inv_allocatePage (h : Inv s) {page : Option Nat} (hn : 1 ≤ n)
    (halloc : s.core.allocatePage n = (page, core)) :
    Inv { s with core := core, outstanding := page.toList.map (·, n) ++ s.outstanding } := by
  cases page with
  | none =>
    have hsame := PageManagerCore.allocatePage_none halloc
    subst hsame
    exact h
  | some p =>
    have hspec := PageManagerCore.allocatePage_some h.blocks hn h.available.ge h.available_lt halloc
    have hcard : Multiset.card core.heapPages + n = Multiset.card s.core.heapPages := by
      rw [← hspec.free, Multiset.card_add, card_pages]
    refine ⟨hspec.blocks, ?_, h.nodup, ?_, ?_, h.added, ?_, ?_⟩
    · rw [Option.toList_some, List.map_singleton, List.singleton_append, extentPages_cons,
        ← h.partition, ← hspec.free]
      abel
    · have hle : n ≤ s.core.ivAvailable := by
        rw [h.available]
        omega
      dsimp only
      rw [hspec.available, sub64_of_le hle h.available_lt, h.available]
      omega
    · intro e he
      rcases List.mem_cons.mp he with rfl | he
      · have hpow : 2 ^ (BUCKETS - 1) < 2 ^ BUCKETS := by decide
        exact ⟨hspec.extent, hn, lt_of_le_of_lt hspec.le hpow⟩
      · exact h.outstanding e he
    · rw [hspec.ranges.1]
      exact h.ranges
    · rw [hspec.ranges.1, hspec.ranges.2]
      exact h.registered

theorem inv_freePage (h : Inv s) {page : Nat} (hmem : (page, n) ∈ s.outstanding) :
    Inv { s with core := s.core.freePage page n false
                 outstanding := s.outstanding.erase (page, n) } := by
  obtain ⟨hext, hpos, hlt⟩ := h.outstanding _ hmem
  have hspec := PageManagerCore.freePage_freed false h.blocks hpos hlt hext
  have hpart : (s.core.freePage page n false).heapPages
      + extentPages (s.outstanding.erase (page, n)) = extentPages s.added := by
    rw [hspec.free, ← h.partition, ← extentPages_erase hmem]
    abel
  refine ⟨hspec.blocks, hpart, h.nodup, ?_, ?_, h.added, ?_, ?_⟩
  · have hcard : Multiset.card s.core.heapPages + n
        ≤ Multiset.card (extentPages s.added) := by
      rw [← hpart, hspec.free, Multiset.card_add, Multiset.card_add, card_pages]
      omega
    have h1 := h.card_added_le
    rw [hspec.available, hspec.free, Multiset.card_add, card_pages, h.available]
    exact add64_of_lt (by omega)
  · intro e he
    exact h.outstanding e (List.mem_of_mem_erase he)
  · rw [hspec.ranges.1]
    exact h.ranges
  · rw [hspec.ranges.1, hspec.ranges.2]
    exact h.registered

theorem inv_coalesce (h : Inv s) (hco : s.core.coalesce = some core) :
    Inv { s with core := core } := by
  obtain ⟨core', hcore', hspec⟩ := PageManagerCore.coalesce_regrouped h.blocks h.covered
  rw [hco] at hcore'
  simp only [Option.some.injEq] at hcore'
  subst hcore'
  have hfree : core.heapPages = s.core.heapPages := by rw [hspec.free, add_zero]
  refine ⟨hspec.blocks, ?_, h.nodup, ?_, h.outstanding, h.added, ?_, ?_⟩
  · rw [hfree]
    exact h.partition
  · rw [hspec.available, hfree]
    exact h.available
  · rw [hspec.ranges.1]
    exact h.ranges
  · rw [hspec.ranges.1, hspec.ranges.2]
    exact h.registered

theorem inv_step {s' : Sys} {op : Op} (h : Inv s) (hstep : Step s op s') : Inv s' := by
  cases hstep with
  | addMemory hext hapart hadd => exact inv_addMemory h hext hapart hadd
  | allocatePage hn halloc => exact inv_allocatePage h hn halloc
  | freePage hmem => exact inv_freePage h hmem
  | coalesce hco => exact inv_coalesce h hco

/-! ## Every run -/

theorem inv_of_run {supportsCoalesce : Bool} {ops : List Op}
    (hrun : Run Step (Sys.init supportsCoalesce) ops s) : Inv s :=
  hrun.invariant (inv_init supportsCoalesce) fun _ _ _ => inv_step

/-- After every run the pages in the free lists and in the outstanding
extents are exactly the pages ever added, no page twice; `iv_available` counts
the pages in the free lists; and the next `coalesce` does not assert. -/
theorem partition_of_run {supportsCoalesce : Bool} {ops : List Op} {s : Sys}
    (hrun : Run Step (Sys.init supportsCoalesce) ops s) :
    s.core.heapPages + extentPages s.outstanding = extentPages s.added ∧
      (extentPages s.added).Nodup ∧
      s.core.ivAvailable = Multiset.card s.core.heapPages ∧
      ∃ core, s.core.coalesce = some core := by
  have h := inv_of_run hrun
  obtain ⟨core, hcore, -⟩ := PageManagerCore.coalesce_regrouped h.blocks h.covered
  exact ⟨h.partition, h.nodup, h.available, core, hcore⟩

/-- Five pages are added, three are allocated, and the rest is coalesced. -/
theorem partition_of_run_five_pages :
    ∃ s, Run Step (Sys.init true) [.addMemory 4096 5, .allocatePage 3, .coalesce] s ∧
      s.core.heapPages + extentPages s.outstanding = extentPages s.added := by
  have hrun : ∃ s, Run Step (Sys.init true)
      [.addMemory 4096 5, .allocatePage 3, .coalesce] s :=
    ⟨_, .snoc (.snoc (.snoc .nil
      (.addMemory ⟨by decide, by decide, by decide⟩ (by simp [Sys.init]) rfl))
      (.allocatePage (by decide) rfl)) (.coalesce rfl)⟩
  obtain ⟨s, hrun⟩ := hrun
  exact ⟨s, hrun, (partition_of_run hrun).1⟩

end Hostboot.PageMgr
