import Mathlib
import Hostboot.HeapMgr.SmallHeap

/-!
# What coalescing reaches

`_coalesce` of `src/kernel/heapmgr.C` walks its chain until a walk merges
nothing.  The last walk then has asked every chunk for the chunk above it, in
a memory that no later step of the walk changed, so no two neighbours of a
page are left that a bucket could hold together.
-/

namespace Hostboot.HeapMgr

open Hostboot.Lib Hostboot.Util HeapManager

/-! ## The last walk -/

theorem mergeChunk_false {fuel chunk : Nat} {m m' : Mem}
    (hmerge : mergeChunk fuel m chunk = some (m', false)) :
    m' = m ∧ mergeBuddy m chunk = none := by
  cases fuel with
  | zero => simp [mergeChunk] at hmerge
  | succ fuel =>
    rw [mergeChunk] at hmerge
    cases hbuddy : mergeBuddy m chunk with
    | none =>
      rw [hbuddy] at hmerge
      simp only [Option.some.injEq, Prod.mk.injEq, and_true] at hmerge
      exact ⟨hmerge.symm, rfl⟩
    | some m1 =>
      rw [hbuddy] at hmerge
      simp only [Option.map_eq_some_iff, Prod.mk.injEq, Bool.true_eq_false, and_false,
        exists_const] at hmerge

theorem mergeChain_false {l : List Nat} {m m' : Mem}
    (hmerge : mergeChain m l = some (m', false)) :
    m' = m ∧ ∀ c ∈ l, mergeBuddy m c = none := by
  induction l generalizing m with
  | nil =>
    simp only [mergeChain, Option.some.injEq, Prod.mk.injEq, and_true] at hmerge
    exact ⟨hmerge.symm, fun c hc => absurd hc List.not_mem_nil⟩
  | cons chunk rest ih =>
    simp only [mergeChain, Option.bind_eq_bind, Option.bind_eq_some_iff, Option.some.injEq,
      Prod.exists, Prod.mk.injEq, Bool.or_eq_false_iff] at hmerge
    obtain ⟨m1, merged, hchunk, m2, merged', hrest, rfl, hno, hno'⟩ := hmerge
    rw [hno] at hchunk
    rw [hno'] at hrest
    obtain ⟨hsame, hfirst⟩ := mergeChunk_false hchunk
    rw [hsame] at hrest
    obtain ⟨hsame', hothers⟩ := ih hrest
    refine ⟨hsame', fun c hc => ?_⟩
    rcases List.mem_cons.mp hc with heq | hmem
    · rw [heq]
      exact hfirst
    · exact hothers c hmem

theorem mergeLoop_maximal {fuel : Nat} {m m' : Mem} {chain chain' : List Nat}
    (hmerge : mergeLoop fuel m chain = some (m', chain')) :
    ∀ c ∈ chain', mergeBuddy m' c = none := by
  induction fuel generalizing m chain with
  | zero => simp [mergeLoop] at hmerge
  | succ fuel ih =>
    simp only [mergeLoop, Option.bind_eq_bind, Option.bind_eq_some_iff, Prod.exists] at hmerge
    obtain ⟨m1, merged, hchain, hmerge⟩ := hmerge
    cases merged with
    | true => exact ih hmerge
    | false =>
      simp only [Bool.false_eq_true, if_false, Option.some.injEq, Prod.mk.injEq] at hmerge
      obtain ⟨rfl, rfl⟩ := hmerge
      obtain ⟨rfl, hnone⟩ := mergeChain_false hchain
      intro c hc
      rw [liveChain, List.mem_reverse, List.mem_filter] at hc
      exact hnone c hc.1

/-- Two free neighbours of a page that a bucket could hold together are
merged. -/
theorem mergeBuddy_ne_none {m : Mem} {chunk b : Nat} (hactive : isActive m chunk = true)
    (hbuddy : isActive m (chunk + bucketByteSize (chunkBucket m chunk)) = true)
    (hpage : alignPageDown (chunk + bucketByteSize (chunkBucket m chunk)) = alignPageDown chunk)
    (hb : b < BUCKETS)
    (hsize : bucketByteSize (chunkBucket m chunk) +
        bucketByteSize (chunkBucket m (chunk + bucketByteSize (chunkBucket m chunk)))
      = bucketByteSize b) : mergeBuddy m chunk ≠ none := by
  have hindex : bucketIndex (bucketByteSize b) = b := bucketIndex_bucketByteSize hb
  have hfits : ¬ (b ≥ BUCKETS ∨ bucketByteSize b ≠ bucketByteSize b) := by
    rintro (hge | hne)
    · omega
    · exact hne rfl
  unfold mergeBuddy
  simp only [hactive, hbuddy, hpage, hsize, hindex, not_true_eq_false, if_false, ne_eq]
  simp [hb]

/-! ## The free stacks -/

/-- The bytes in the free stacks. -/
def HeapManager.freeBytes (h : HeapManager) : Nat :=
  (h.freeChunks.map fun c => bucketByteSize c.2).sum

variable {h : HeapManager} {regions : List (Nat × Nat)} {held : Multiset (Nat × Nat)}
  {chain : List Nat}

theorem freeChunks_foldl_restore (hch : Chained h regions chain held)
    (hactive : ∀ d ∈ chain, isActive h.mem d = true) :
    (chain.foldl restore h).freeChunks = h.freeChunks + chainChunks h.mem chain := by
  induction chain generalizing h with
  | nil => rw [chainChunks_nil, add_zero, List.foldl_nil]
  | cons c rest ih =>
    have hc := hactive c List.mem_cons_self
    have htiled := hch.tiled
    rw [chainChunks_cons hc, Multiset.cons_add] at htiled
    have hb : chunkBucket h.mem c < BUCKETS :=
      htiled.bucket_lt _ (Tiled.held_mem _ (Multiset.mem_cons_self _ _))
    have hpush : (restore h c).freeChunks = (c, chunkBucket h.mem c) ::ₘ h.freeChunks := by
      rw [restore_eq, Tiled.pushBucket_eq hb htiled.lt_of_held]
      exact Tiled.freeChunks_push _ _ c hb
    obtain ⟨hch', hactive', -, -⟩ := restore_spec hch hactive
    rw [List.foldl_cons, ih hch' hactive', hpush,
      chainChunks_congr (hch.sameHeader_restore hactive), chainChunks_cons hc, Multiset.cons_add,
      Multiset.add_cons]

/-- The free bytes and the bytes of the allocated chunks are the bytes of the
pages. -/
theorem HeapOk.freeBytes_add (hok : HeapOk h held) :
    h.freeBytes + (held.map fun c => bucketByteSize c.2).sum
      = ((pageRegions h.pages).map fun r => r.2 - r.1).sum := by
  rw [HeapManager.freeBytes, ← Multiset.sum_add, ← Multiset.map_add]
  exact hok.tiled.tiling.sum_size

/-! ## The whole function -/

/-- No two free neighbours of a page are together as large as a bucket. -/
def HeapManager.NoBuddies (h : HeapManager) : Prop :=
  ∀ c ∈ h.freeChunks, ∀ d ∈ h.freeChunks, d.1 = c.1 + bucketByteSize c.2 →
    alignPageDown d.1 = alignPageDown c.1 →
      ∀ b < BUCKETS, bucketByteSize c.2 + bucketByteSize d.2 ≠ bucketByteSize b

variable {h' : HeapManager}

theorem HeapOk.freeBytes_coalesce (hok : HeapOk h held)
    (hheld : ∀ d ∈ held, chunkFree h.mem d.1 ≠ byte 'F') (hco : h.coalesce = .ok h') :
    h'.freeBytes = h.freeBytes := by
  obtain ⟨h2, hco2, hok', -, hpages⟩ := coalesce_spec hok hheld
  rw [hco2] at hco
  rw [← Except.ok.inj hco]
  have hbefore := hok.freeBytes_add
  have hafter := hok'.freeBytes_add
  rw [hpages, ← hbefore] at hafter
  exact Nat.add_right_cancel hafter

theorem HeapOk.noBuddies_coalesce (hok : HeapOk h held)
    (hheld : ∀ d ∈ held, chunkFree h.mem d.1 ≠ byte 'F') (hco : h.coalesce = .ok h') :
    h'.NoBuddies := by
  obtain ⟨h1, chain, m', chain', hmerge, heq, hch, hactive, hempty, -, -⟩ :=
    coalesce_parts hok.tiled hok.pages.paged (Guards.of_not_free hok.pages hheld)
  have hfree : h'.freeChunks = chainChunks m' chain' := by
    rw [hco] at heq
    rw [Except.ok.inj heq, freeChunks_foldl_restore hch hactive]
    have hstacks : HeapManager.freeChunks { h1 with mem := m' } = 0 := hempty
    rw [hstacks, zero_add]
  intro c hc d hd hnext hpage b hb hsize
  rw [hfree, mem_chainChunks] at hc hd
  obtain ⟨hmem, hactive1, hbucket⟩ := hc
  obtain ⟨-, hactive2, hbucket'⟩ := hd
  rw [← hbucket] at hnext hsize
  rw [hnext] at hpage hactive2 hbucket'
  rw [← hbucket'] at hsize
  exact mergeBuddy_ne_none hactive1 hactive2 hpage hb hsize (mergeLoop_maximal hmerge c.1 hmem)

/-- `_coalesce` returns, keeps the tiling, the allocated chunks and the number
of free bytes, and leaves no two free neighbours of a page that a bucket could
hold together. -/
theorem coalesce_maximal (hok : HeapOk h held)
    (hheld : ∀ d ∈ held, chunkFree h.mem d.1 ≠ byte 'F') :
    ∃ h', h.coalesce = .ok h' ∧ HeapOk h' held ∧ Keeps h.mem h'.mem held ∧
      h'.freeBytes = h.freeBytes ∧ h'.NoBuddies := by
  obtain ⟨h', hco, hok', hkeeps, -⟩ := coalesce_spec hok hheld
  exact ⟨h', hco, hok', hkeeps, hok.freeBytes_coalesce hheld hco,
    hok.noBuddies_coalesce hheld hco⟩

/-- The heap of one page of which all chunks are free. -/
def oneFreePage : HeapManager := (Sys.init fun _ => 0).heap.newPage 4096

/-- The heap behind an allocation. -/
def HeapManager.taken (h : HeapManager) (sz : Nat) : HeapManager :=
  match h.allocate 1 sz [] with
  | .ok (_, h') => h'
  | .error _ => h

theorem allocate_taken {c sz : Nat} (hok : HeapOk h held) (hsz : sz ≤ MAX_SMALL_ALLOC_SIZE)
    (hptr : (h.allocate 1 sz []).toOption.map Prod.fst = some (c + 8)) :
    ∃ b, Allocated h (h.taken sz) held (c + 8) sz c b := by
  have halloc : h.allocate 1 sz [] = .ok (c + 8, h.taken sz) := by
    unfold HeapManager.taken
    rcases halloc : h.allocate 1 sz [] with err | ⟨ptr', h'⟩
    · rw [halloc] at hptr
      cases hptr
    · rw [halloc] at hptr
      cases hptr
      rfl
  obtain ⟨c', b, hspec⟩ := @allocate_spec [] _ _ _ _ _ _ hok hok.pages hsz halloc
  obtain rfl : c = c' := Nat.add_right_cancel hspec.ptr
  exact ⟨b, hspec⟩

/-- The page with a chunk of 32 bytes in use, and one of 208 bytes free again. -/
def freedPage : HeapManager := ((oneFreePage.taken 20).taken 150).pushBucket 7824 5

/-- Coalescing it: two of its free chunks are buddies before. -/
theorem coalesce_maximal_page : ¬freedPage.NoBuddies ∧ ∃ h', freedPage.coalesce = .ok h' ∧
    h'.freeBytes = freedPage.freeBytes ∧ h'.NoBuddies := by
  have hinit : HeapOk (Sys.init fun _ => 0).heap 0 := (inv_init fun _ => 0).heap
  have hpages : PagesOk (4096 :: (Sys.init fun _ => 0).heap.pages) :=
    ⟨by decide, by decide⟩
  have hpage : HeapOk oneFreePage 0 := (hinit.newPage hpages).1
  obtain ⟨b1, hfirst⟩ := @allocate_taken _ _ 8160 20 hpage (by decide) (by decide +kernel)
  obtain ⟨b, hsecond⟩ := @allocate_taken _ _ 7824 150 hfirst.heap (by decide) (by decide +kernel)
  have hb : chunkBucket ((oneFreePage.taken 20).taken 150).mem 7824 = b :=
    hsecond.heap.tiled.header_cons
  have hb5 : chunkBucket ((oneFreePage.taken 20).taken 150).mem 7824 = 5 := by decide +kernel
  obtain rfl : 5 = b := hb5.symm.trans hb
  have hok : HeapOk freedPage ((8160, b1) ::ₘ 0) := (free_spec hsecond.heap).1
  have hstack : 7824 ∈ freedPage.firstChunk 5 := by decide +kernel
  have hstack' : 8032 ∈ freedPage.firstChunk 4 := by decide +kernel
  have htaken : chunkFree freedPage.mem 8160 ≠ byte 'F' := by decide +kernel
  generalize freedPage = h at *
  refine ⟨fun hbuddies => ?_, ?_⟩
  · exact hbuddies _ (Tiled.mem_freeChunks (by decide) hstack) _
      (Tiled.mem_freeChunks (by decide) hstack') (by decide) (by decide) 6 (by decide) (by decide)
  · obtain ⟨h', hco, -, -, hbytes, hno⟩ := coalesce_maximal hok fun d hd => by
      rw [Multiset.cons_zero, Multiset.mem_singleton] at hd
      rwa [hd]
    exact ⟨h', hco, hbytes, hno⟩

end Hostboot.HeapMgr
