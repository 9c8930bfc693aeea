import Mathlib
import Hostboot.HeapMgr.Steps

/-!
# Coalescing between the steps of the allocator

`_coalesce` runs while any number of calls of the allocator are suspended.  It
knows a free chunk by two bytes of its header, `'F'` and `'C'`.  A chunk that
was popped still has its `'F'`, and nobody clears the other byte when `newPage`
or `pop_bucket` makes a chunk: it is what the memory held before.  So a chunk
in the hands of a suspended call can look like one of the chain.

* `Phase.Ok` is what a suspended call knows about its chunks, and
  `Phase.next_spec` is the lemma of one step of a call: the tiling stays, and the
  chunks of the others keep their bytes.
* `Inv` is the invariant of the system.
* `apart_of_run` says that the live allocations are disjoint in every run in
  which `_coalesce` finds no chunk of a suspended call that bears both marks.
* `overlap_after_coalesce` is a run in which it finds one, and two live
  allocations overlap.
-/

namespace Hostboot.HeapMgr

open Hostboot.Lib Hostboot.Util List

/-! ## Regions -/

/-- A region that is the lower part of a page. -/
def LowerPart (r : Nat × Nat) : Prop :=
  r.1 ≤ r.2 ∧ r.2 ≤ r.1 + PAGESIZE ∧ 16 ∣ r.2

theorem PagesOk.perm {pages pages' : List Nat} (h : PagesOk pages) (hperm : pages.Perm pages') :
    PagesOk pages' :=
  ⟨hperm.nodup_iff.mp h.nodup, fun p hp => h.page p (hperm.mem_iff.mpr hp)⟩

theorem PagesOk.regionsOk_of_parts {regions : List (Nat × Nat)}
    (hpages : PagesOk (regions.map Prod.fst)) (h : ∀ r ∈ regions, LowerPart r) :
    RegionsOk regions := by
  have hsize : PAGESIZE = 4096 := rfl
  have hstart : ∀ r ∈ regions, 0 < r.1 ∧ r.1 % PAGESIZE = 0 ∧ r.1 + PAGESIZE ≤ 2 ^ 32 :=
    fun r hr => hpages.page r.1 (mem_map_of_mem hr)
  have hnodup := hpages.nodup
  rw [List.Nodup, pairwise_map] at hnodup
  refine ⟨(List.Pairwise.and_mem.mp hnodup).imp ?_, fun r hr => ?_⟩
  · rintro r r' ⟨hr, hr', hne⟩
    obtain ⟨-, h1, -⟩ := hstart r hr
    obtain ⟨-, h2, -⟩ := hstart r' hr'
    obtain ⟨-, h3, -⟩ := h r hr
    obtain ⟨-, h4, -⟩ := h r' hr'
    rw [hsize] at h1 h2 h3 h4
    omega
  · obtain ⟨h1, h2, h3⟩ := hstart r hr
    obtain ⟨-, h4, -⟩ := h r hr
    rw [hsize] at h2 h3 h4
    omega

theorem PagesOk.paged_of_parts {regions : List (Nat × Nat)}
    (hpages : PagesOk (regions.map Prod.fst)) (h : ∀ r ∈ regions, LowerPart r) :
    Paged regions :=
  ⟨fun r hr => Nat.dvd_of_mod_eq_zero (hpages.page r.1 (mem_map_of_mem hr)).2.1,
    fun r hr => ⟨(h r hr).1, (h r hr).2.1⟩, fun r hr => (h r hr).2.2⟩

theorem Tiled.perm {h : HeapManager} {regions regions' : List (Nat × Nat)}
    {held : Multiset (Nat × Nat)} (ht : Tiled h regions held) (hperm : regions.Perm regions') :
    Tiled h regions' held := by
  have hsymm : Std.Symm fun r r' : Nat × Nat => r.2 ≤ r'.1 ∨ r'.2 ≤ r.1 := ⟨fun _ _ => Or.symm⟩
  refine ⟨⟨?_, fun r hr => ht.regionsOk.start r (hperm.mem_iff.mpr hr)⟩, ht.tiling.perm hperm,
    ht.bucket_lt, ht.header, ht.free⟩
  exact hperm.pairwise ht.regionsOk.apart fun hr => hr.symm

/-! ## What a suspended call knows -/

/-- After the first store of `push_bucket` the chunk is marked free. -/
def PushStep.Ok (m : Mem) (c : Nat) : PushStep → Prop
  | .free => True
  | .size | .allocator | .link => chunkFree m c = byte 'F'

/-- What `_allocate` has stored to its chunk. -/
def ClaimStep.Ok (m : Mem) (c b : Nat) : ClaimStep → Prop
  | .valid => True
  | .free => m (c + bucketByteSize b - 1) = byte 'V'
  | .size | .allocator => m (c + bucketByteSize b - 1) = byte 'V' ∧ chunkFree m c = byte 'A'

/-- The bucket is large enough for the request. -/
def Wanted (sz want : Nat) : Prop :=
  want < BUCKETS ∧ sz + CHUNK_HEADER_PLUS_RESERVED ≤ bucketByteSize want

/-- The loop of `newPage` at the address `c`: `remaining` is the rest of the
page. -/
def Carving (page c remaining : Nat) : Prop :=
  c + remaining = page + PAGESIZE ∧ page ≤ c ∧ remaining ∈ [PAGESIZE, 368, 32, 0]

/-- What a call knows. -/
def Phase.Ok (m : Mem) : Phase → Prop
  | .pop sz want i => Wanted sz want ∧ want ≤ i
  | .split sz want i c => Wanted sz want ∧ want ≤ i ∧ i + 1 < BUCKETS ∧ chunkFree m c = byte 'F'
  | .shrink sz want i c c1Size =>
    (Wanted sz want ∧ want ≤ i ∧ i + 1 < BUCKETS ∧ chunkFree m c = byte 'F') ∧
      c1Size = sub64 (bucketByteSize (i + 1)) (bucketByteSize i) ∧
      chunkBucket m (c + bucketByteSize i) = bucketIndex c1Size
  | .pushRest sz want i c _ step =>
    (Wanted sz want ∧ want ≤ i ∧ chunkFree m c = byte 'F') ∧ step.Ok m (c + bucketByteSize i)
  | .popped sz want c => Wanted sz want ∧ chunkFree m c = byte 'F'
  | .claim sz want c step => Wanted sz want ∧ step.Ok m c want
  | .newPage sz => sz ≤ MAX_SMALL_ALLOC_SIZE
  | .carve sz page c remaining => sz ≤ MAX_SMALL_ALLOC_SIZE ∧ Carving page c remaining
  | .pushCarved sz page c bucket remaining step =>
    sz ≤ MAX_SMALL_ALLOC_SIZE ∧ Carving page c remaining ∧ MIN_BUCKET_SIZE ≤ remaining ∧
      bucket = HeapManager.fitBucket remaining ∧ step.Ok m c
  | .free c _ step => step.Ok m c

section Step

variable {h h' : HeapManager} {regions : List (Nat × Nat)} {others held : Multiset (Nat × Nat)}
  {c b : Nat}

variable {m m' : Mem} {step : PushStep} {p : Phase}
  {sz want i tid page remaining page' bucket : Nat}

theorem Keeps.sameHeader {d : Nat × Nat} (hkeeps : Keeps m m' held) (hd : d ∈ held)
    (hsize : 16 ≤ bucketByteSize d.2) : SameHeader m m' d.1 :=
  sameHeader_of_bytes fun x hlo hhi => hkeeps d hd x hlo (by omega)

theorem PushStep.Ok.keeps (h : step.Ok m c) (hsame : SameHeader m m' c) : step.Ok m' c := by
  cases step with
  | free => trivial
  | size | allocator | link => exact hsame.free.trans h

theorem Phase.Ok.keeps (h : p.Ok m) (hkeeps : Keeps m m' p.held)
    (hsize : ∀ d ∈ p.held, 16 ≤ bucketByteSize d.2) : p.Ok m' := by
  have hheader : ∀ d ∈ p.held, SameHeader m m' d.1 := fun d hd => hkeeps.sameHeader hd (hsize d hd)
  cases p with
  | pop | newPage | carve => exact h
  | split sz want i c =>
    have hc := hheader (c, i + 1) (Multiset.mem_singleton_self _)
    exact ⟨h.1, h.2.1, h.2.2.1, hc.free.trans h.2.2.2⟩
  | shrink sz want i c c1Size =>
    have hc := hheader (c, i + 1) (Multiset.mem_singleton_self _)
    obtain ⟨⟨h1, h2, h3, h4⟩, h5, h6⟩ := h
    refine ⟨⟨h1, h2, h3, hc.free.trans h4⟩, h5, ?_⟩
    -- The header of the rest stands inside the chunk.
    obtain ⟨b1, hb1, hsum, -⟩ := Tiled.split_sizes h3
    have hs1 := le_bucketByteSize hb1
    have hmin : MIN_BUCKET_SIZE = 16 := rfl
    have hrest : SameHeader m m' (c + bucketByteSize i) := sameHeader_of_bytes fun x hlo hhi =>
      hkeeps (c, i + 1) (Multiset.mem_singleton_self _) x (by omega) (by dsimp only; omega)
    exact hrest.bucket.trans h6
  | pushRest sz want i c c1Bucket step =>
    obtain ⟨⟨h1, h2, h3⟩, h4⟩ := h
    have hc := hheader (c, i) (by simp [Phase.held])
    have hc1 := hheader (c + bucketByteSize i, c1Bucket) (by simp [Phase.held])
    exact ⟨⟨h1, h2, hc.free.trans h3⟩, h4.keeps hc1⟩
  | popped sz want c =>
    have hc := hheader (c, want) (Multiset.mem_singleton_self _)
    exact ⟨h.1, hc.free.trans h.2⟩
  | claim sz want c step =>
    have hc := hheader (c, want) (Multiset.mem_singleton_self _)
    have hs := hsize (c, want) (Multiset.mem_singleton_self _)
    dsimp only at hs
    have hv : m' (c + bucketByteSize want - 1) = m (c + bucketByteSize want - 1) :=
      hkeeps (c, want) (Multiset.mem_singleton_self _) _ (by dsimp only; omega)
        (by dsimp only; omega)
    refine ⟨h.1, ?_⟩
    cases step with
    | valid => trivial
    | free => exact hv.trans h.2
    | size | allocator => exact ⟨hv.trans h.2.1, hc.free.trans h.2.2⟩
  | pushCarved sz page c bucket remaining step =>
    obtain ⟨h1, h2, h3, h4, h5⟩ := h
    exact ⟨h1, h2, h3, h4, h5.keeps (hheader (c, bucket) (Multiset.mem_singleton_self _))⟩
  | free c bucket step =>
    exact PushStep.Ok.keeps h (hheader (c, bucket) (Multiset.mem_singleton_self _))

/-! ## `push_bucket` step by step -/

theorem Tiled.pushStep_some {step' : PushStep} (ht : Tiled h regions ((c, b) ::ₘ held))
    (hok : step.Ok h.mem c) (hpush : h.pushStep c b step = (h', some step')) :
    Tiled h' regions ((c, b) ::ₘ held) ∧ step'.Ok h'.mem c ∧ Keeps h.mem h'.mem held ∧
      h'.pages = h.pages := by
  have hsize := ht.size_cons
  have hstore : ∀ m', h.mem.SameOutside m' c 8 → chunkBucket m' c = chunkBucket h.mem c →
      Tiled (h.setMem m') regions ((c, b) ::ₘ held) ∧ Keeps h.mem m' held := by
    intro m' hsame hbucket
    have hchunk := hsame.mono (b := c) (k := bucketByteSize b) le_rfl (by omega)
    exact ⟨ht.write hchunk (hbucket.trans ht.header_cons), ht.keeps hchunk⟩
  cases step with
  | free =>
    have hb : b < BUCKETS := ht.bucket_lt (c, b) (Tiled.held_mem _ (Multiset.mem_cons_self _ _))
    rw [HeapManager.pushStep, if_neg (by omega), Prod.mk.injEq, Option.some.injEq] at hpush
    obtain ⟨rfl, rfl⟩ := hpush
    obtain ⟨htiled, hkeeps⟩ := hstore _ (sameOutside_setFree h.mem c (byte 'F'))
      (chunkBucket_setFree h.mem c _)
    exact ⟨htiled, chunkFree_setFree h.mem c _, hkeeps, rfl⟩
  | size =>
    rw [HeapManager.pushStep, Prod.mk.injEq, Option.some.injEq] at hpush
    obtain ⟨rfl, rfl⟩ := hpush
    obtain ⟨htiled, hkeeps⟩ := hstore _ (sameOutside_setSize h.mem c 0) (chunkBucket_setSize h.mem c _)
    exact ⟨htiled, (chunkFree_setSize h.mem c _).trans hok, hkeeps, rfl⟩
  | allocator =>
    rw [HeapManager.pushStep, Prod.mk.injEq, Option.some.injEq] at hpush
    obtain ⟨rfl, rfl⟩ := hpush
    obtain ⟨htiled, hkeeps⟩ := hstore _ (sameOutside_setAllocator h.mem c 0)
      (chunkBucket_setAllocator h.mem c _)
    exact ⟨htiled, (chunkFree_setAllocator h.mem c _).trans hok, hkeeps, rfl⟩
  | link =>
    rw [HeapManager.pushStep, Prod.mk.injEq] at hpush
    exact absurd hpush.2 (by simp)

theorem Tiled.pushStep_none (ht : Tiled h regions ((c, b) ::ₘ held)) (hok : step.Ok h.mem c)
    (hpush : h.pushStep c b step = (h', none)) :
    Tiled h' regions held ∧ h'.mem = h.mem ∧ h'.pages = h.pages := by
  have hb : b < BUCKETS := ht.bucket_lt (c, b) (Tiled.held_mem _ (Multiset.mem_cons_self _ _))
  cases step with
  | free =>
    rw [HeapManager.pushStep, if_neg (by omega), Prod.mk.injEq] at hpush
    exact absurd hpush.2 (by simp)
  | size | allocator =>
    rw [HeapManager.pushStep, Prod.mk.injEq] at hpush
    exact absurd hpush.2 (by simp)
  | link =>
    rw [HeapManager.pushStep, Prod.mk.injEq, Stack.push, getPtr_of_lt ht.lt_of_held] at hpush
    obtain ⟨rfl, -⟩ := hpush
    exact ⟨ht.link hok, rfl, rfl⟩

/-! ## One step of a call -/

theorem suspended_inj {h₁ h₂ : HeapManager} {p1 p2 : Phase}
    (heq : (.ok (h₁, .suspended p1) : Except Fault (HeapManager × Outcome))
      = .ok (h₂, .suspended p2)) : h₁ = h₂ ∧ p1 = p2 := by
  rw [Except.ok.injEq, Prod.mk.injEq, Outcome.suspended.injEq] at heq
  exact heq

/-- What a step of a call leads to, when the call is still in progress. -/
structure Advanced (h h' : HeapManager) (regions : List (Nat × Nat)) (others : Multiset (Nat × Nat))
    (p : Phase) : Prop where
  tiled : Tiled h' (p.region.toList ++ regions) (p.held + others)
  ok : p.Ok h'.mem
  keeps : Keeps h.mem h'.mem others
  pages : h'.pages = h.pages

theorem returned_spec (ht : Tiled h' regions ((c, i) ::ₘ others)) (hwanted : Wanted sz want)
    (hle : want ≤ i) (hfree : chunkFree h'.mem c = byte 'F') (hkeeps : Keeps h.mem h'.mem others)
    (hpages : h'.pages = h.pages) :
    Advanced h h' regions others (returned sz want i c) := by
  have hi : i < BUCKETS := ht.bucket_lt (c, i) (Tiled.held_mem _ (Multiset.mem_cons_self _ _))
  unfold returned
  split_ifs with heq
  · subst heq
    exact ⟨by simpa [Phase.region, Phase.held] using ht, ⟨hwanted, hfree⟩, hkeeps, hpages⟩
  · have hsucc : i - 1 + 1 = i := by omega
    refine ⟨?_, ⟨hwanted, by omega, by omega, hfree⟩, hkeeps, hpages⟩
    simpa [Phase.region, Phase.held, hsucc] using ht

theorem pop_spec (ht : Tiled h regions others) (hok : (Phase.pop sz want i).Ok h.mem)
    (hnext : (Phase.pop sz want i).next h tid page = .ok (h', .suspended p)) :
    Advanced h h' regions others p := by
  obtain ⟨hwanted, hle⟩ := hok
  rw [Phase.next] at hnext
  split_ifs at hnext with hi
  · obtain ⟨rfl, rfl⟩ := suspended_inj hnext
    have hmax := bucketByteSize_le_max hwanted.1
    have hfits := hwanted.2
    have hsmall : MAX_SMALL_ALLOC_SIZE = 3728 - CHUNK_HEADER_PLUS_RESERVED := by decide
    refine ⟨by simpa [Phase.region, Phase.held] using ht, ?_, Keeps.refl _ _, rfl⟩
    show sz ≤ MAX_SMALL_ALLOC_SIZE
    omega
  · cases hpop : Stack.pop (h.firstChunk i) with
    | none =>
      rw [hpop] at hnext
      obtain ⟨rfl, rfl⟩ := suspended_inj hnext
      exact ⟨by simpa [Phase.region, Phase.held] using ht, ⟨hwanted, by omega⟩, Keeps.refl _ _, rfl⟩
    | some pair =>
      obtain ⟨c, rest⟩ := pair
      rw [hpop] at hnext
      obtain ⟨rfl, rfl⟩ := suspended_inj hnext
      obtain ⟨htake, hfree⟩ := ht.takeFirst (by omega) (Stack.pop_eq_some hpop).1
      exact returned_spec htake hwanted hle hfree (Keeps.refl _ _) rfl

theorem split_spec (ht : Tiled h regions ((c, i + 1) ::ₘ others))
    (hok : (Phase.split sz want i c).Ok h.mem)
    (hnext : (Phase.split sz want i c).next h tid page = .ok (h', .suspended p)) :
    Advanced h h' regions others p := by
  obtain ⟨hwanted, hle, hi, hfree⟩ := hok
  rw [Phase.next] at hnext
  obtain ⟨rfl, rfl⟩ := suspended_inj hnext
  have hheader : chunkBucket h.mem c = i + 1 := ht.header_cons
  obtain ⟨b1, hb1, hsum, hsub, hindex⟩ := Tiled.split_sizes hi
  have hs0 := le_bucketByteSize (show i < BUCKETS by omega)
  have hs1 := le_bucketByteSize hb1
  have hmin : MIN_BUCKET_SIZE = 16 := rfl
  rw [hheader]
  -- The store is to the header of the rest, inside the chunk.
  have hsame := sameOutside_setBucket h.mem (c + bucketByteSize i)
    (bucketIndex (sub64 (bucketByteSize (i + 1)) (bucketByteSize i)))
  have hchunk := hsame.mono (b := c) (k := bucketByteSize (i + 1)) (by omega) (by omega)
  have hc : SameHeader h.mem _ c := sameHeader_of_bytes fun x hlo hhi => hsame x (by omega)
  refine ⟨?_, ⟨⟨hwanted, hle, hi, hc.free.trans hfree⟩, rfl, ?_⟩, ht.keeps hchunk, rfl⟩
  · have hwrite := ht.write hchunk (hc.bucket.trans hheader)
    simpa [Phase.region, Phase.held, HeapManager.setMem] using hwrite
  · refine chunkBucket_setBucket _ _ ?_
    rw [hsub, hindex]
    exact hb1

theorem shrink_spec {c1Size : Nat} (ht : Tiled h regions ((c, i + 1) ::ₘ others))
    (hok : (Phase.shrink sz want i c c1Size).Ok h.mem)
    (hnext : (Phase.shrink sz want i c c1Size).next h tid page = .ok (h', .suspended p)) :
    Advanced h h' regions others p := by
  obtain ⟨⟨hwanted, hle, hi, hfree⟩, rfl, hbucket⟩ := hok
  obtain ⟨b1, hb1, hsum, hsub, hindex⟩ := Tiled.split_sizes hi
  have hs1 := le_bucketByteSize hb1
  have hmin : MIN_BUCKET_SIZE = 16 := rfl
  rw [hsub, hindex] at hbucket
  rw [Phase.next, hsub, hindex, if_pos hs1] at hnext
  obtain ⟨rfl, rfl⟩ := suspended_inj hnext
  have hsame := sameOutside_setBucket h.mem c i
  have hs0 := le_bucketByteSize (show i < BUCKETS by omega)
  have hrest : SameHeader h.mem (setBucket h.mem c i) (c + bucketByteSize i) :=
    sameHeader_of_bytes fun x hlo hhi => hsame x (by omega)
  have hsplit := ht.cutHeld (show i < BUCKETS by omega) hb1 hsum
    (hsame.mono le_rfl (by omega)) (chunkBucket_setBucket h.mem c (by omega))
    (hrest.bucket.trans hbucket)
  refine ⟨?_, ⟨⟨hwanted, hle, (chunkFree_setBucket h.mem c i).trans hfree⟩, trivial⟩, ?_, rfl⟩
  · simpa [Phase.region, Phase.held, HeapManager.setMem] using hsplit
  · exact ht.keeps (hsame.mono (b := c) (k := bucketByteSize (i + 1)) le_rfl (by omega))

theorem pushRest_spec {c1Bucket : Nat}
    (ht : Tiled h regions ((c + bucketByteSize i, c1Bucket) ::ₘ (c, i) ::ₘ others))
    (hok : (Phase.pushRest sz want i c c1Bucket step).Ok h.mem)
    (hnext : (Phase.pushRest sz want i c c1Bucket step).next h tid page = .ok (h', .suspended p)) :
    Advanced h h' regions others p := by
  obtain ⟨⟨hwanted, hle, hfree⟩, hstep⟩ := hok
  have hsize : 16 ≤ bucketByteSize i := by
    have := ht.size_le (d := (c, i)) (Tiled.held_mem _ (by simp))
    exact this
  rw [Phase.next] at hnext
  cases hpush : h.pushStep (c + bucketByteSize i) c1Bucket step with
  | mk h₁ r =>
    rw [hpush] at hnext
    cases r with
    | some step' =>
      obtain ⟨rfl, rfl⟩ := suspended_inj hnext
      obtain ⟨htiled, hstep', hkeeps, hpages⟩ := ht.pushStep_some hstep hpush
      have hc := hkeeps.sameHeader (Multiset.mem_cons_self (c, i) _) hsize
      refine ⟨?_, ⟨⟨hwanted, hle, hc.free.trans hfree⟩, hstep'⟩,
        hkeeps.mono fun d hd => Multiset.mem_cons_of_mem hd, hpages⟩
      simpa [Phase.region, Phase.held] using htiled
    | none =>
      obtain ⟨rfl, rfl⟩ := suspended_inj hnext
      obtain ⟨htiled, hmem, hpages⟩ := ht.pushStep_none hstep hpush
      refine returned_spec htiled hwanted hle ?_ ?_ hpages
      · rw [hmem]
        exact hfree
      · rw [hmem]
        exact Keeps.refl _ _

/-- A store to the header or the validation byte of the chunk of `_allocate`. -/
theorem claimed_spec {step : ClaimStep} (ht : Tiled h regions ((c, want) ::ₘ others))
    (hwanted : Wanted sz want) (hsame : h.mem.SameOutside m' c (bucketByteSize want))
    (hbucket : chunkBucket m' c = chunkBucket h.mem c) (hok : step.Ok m' c want) :
    Advanced h (h.setMem m') regions others (.claim sz want c step) := by
  refine ⟨?_, ⟨hwanted, hok⟩, ht.keeps hsame, rfl⟩
  have hwrite := ht.write hsame (hbucket.trans ht.header_cons)
  simpa [Phase.region, Phase.held, HeapManager.setMem] using hwrite

theorem claim_spec {step : ClaimStep} (ht : Tiled h regions ((c, want) ::ₘ others))
    (hok : (Phase.claim sz want c step).Ok h.mem)
    (hnext : (Phase.claim sz want c step).next h tid page = .ok (h', .suspended p)) :
    Advanced h h' regions others p := by
  obtain ⟨hwanted, hstep⟩ := hok
  have hsize := ht.size_cons
  have hheader : chunkBucket h.mem c = want := ht.header_cons
  -- The validation byte stands above the header.
  have hvalid : ∀ m', h.mem.SameOutside m' c 8 →
      m' (c + bucketByteSize want - 1) = h.mem (c + bucketByteSize want - 1) :=
    fun m' hsame => hsame _ (by omega)
  cases step with
  | valid =>
    rw [Phase.next] at hnext
    obtain ⟨rfl, rfl⟩ := suspended_inj hnext
    rw [hheader]
    have hput := Mem.SameOutside.put h.mem (c + bucketByteSize want - 1) (byte 'V')
    refine claimed_spec ht hwanted (hput.mono (by omega) (by omega)) ?_ (Mem.put_same _ _ _)
    exact (sameHeader_of_bytes fun x _ hhi => hput x (by omega)).bucket
  | free =>
    rw [Phase.next] at hnext
    obtain ⟨rfl, rfl⟩ := suspended_inj hnext
    have hsame := sameOutside_setFree h.mem c (byte 'A')
    exact claimed_spec ht hwanted (hsame.mono le_rfl (by omega)) (chunkBucket_setFree h.mem c _)
      ⟨(hvalid _ hsame).trans hstep, chunkFree_setFree h.mem c _⟩
  | size =>
    rw [Phase.next] at hnext
    obtain ⟨rfl, rfl⟩ := suspended_inj hnext
    have hsame := sameOutside_setSize h.mem c sz
    exact claimed_spec ht hwanted (hsame.mono le_rfl (by omega)) (chunkBucket_setSize h.mem c _)
      ⟨(hvalid _ hsame).trans hstep.1, (chunkFree_setSize h.mem c _).trans hstep.2⟩
  | allocator => simp [Phase.next] at hnext

/-- The end of `_allocate`: the chunk becomes that of a live allocation. -/
theorem allocated_spec {ptr sz' : Nat} {step : ClaimStep}
    (ht : Tiled h regions ((c, want) ::ₘ others)) (hok : (Phase.claim sz want c step).Ok h.mem)
    (hnext : (Phase.claim sz want c step).next h tid page = .ok (h', .allocated ptr sz')) :
    ptr = c + 8 ∧ sz' = sz ∧ Tiled h' regions ((c, want) ::ₘ others) ∧
      LiveOk h'.mem c want sz ∧ Keeps h.mem h'.mem others ∧ h'.pages = h.pages := by
  obtain ⟨hwanted, hstep⟩ := hok
  have hsize := ht.size_cons
  cases step with
  | valid | free | size => simp [Phase.next] at hnext
  | allocator =>
    rw [Phase.next, Except.ok.injEq, Prod.mk.injEq, Outcome.allocated.injEq] at hnext
    obtain ⟨rfl, rfl, rfl⟩ := hnext
    have hsame := sameOutside_setAllocator h.mem c tid
    have hchunk := hsame.mono (b := c) (k := bucketByteSize want) le_rfl (by omega)
    refine ⟨rfl, rfl, ht.write hchunk ((chunkBucket_setAllocator h.mem c _).trans ht.header_cons),
      ⟨(chunkFree_setAllocator h.mem c _).trans hstep.2, ?_, hwanted.2⟩, ht.keeps hchunk, rfl⟩
    exact (hsame _ (by omega)).trans hstep.1

theorem carving_cases (hmem : remaining ∈ [PAGESIZE, 368, 32, 0])
    (hmin : MIN_BUCKET_SIZE ≤ remaining) :
    HeapManager.fitBucket remaining < BUCKETS ∧
      bucketByteSize (HeapManager.fitBucket remaining) ≤ remaining ∧
      remaining - bucketByteSize (HeapManager.fitBucket remaining) ∈ [PAGESIZE, 368, 32, 0] := by
  have hall : ∀ remaining ∈ [PAGESIZE, 368, 32, 0], MIN_BUCKET_SIZE ≤ remaining →
      HeapManager.fitBucket remaining < BUCKETS ∧
        bucketByteSize (HeapManager.fitBucket remaining) ≤ remaining ∧
        remaining - bucketByteSize (HeapManager.fitBucket remaining) ∈ [PAGESIZE, 368, 32, 0] := by
    decide
  exact hall remaining hmem hmin

theorem Carving.dvd (h : Carving page c remaining) (hpage : 16 ∣ page) : 16 ∣ c := by
  obtain ⟨hsum, -, hmem⟩ := h
  have hsize : PAGESIZE = 4096 := rfl
  rw [hsize] at hsum hmem
  simp only [mem_cons, not_mem_nil, or_false] at hmem
  omega

theorem newPage_spec (ht : Tiled h regions others) (hok : (Phase.newPage sz).Ok h.mem)
    (hregions : RegionsOk ((page, page + PAGESIZE) :: regions))
    (hnext : (Phase.newPage sz).next h tid page = .ok (h', .suspended p)) :
    Advanced h h' regions others p := by
  rw [Phase.next] at hnext
  obtain ⟨rfl, rfl⟩ := suspended_inj hnext
  refine ⟨?_, ⟨hok, rfl, le_rfl, by simp⟩, Keeps.refl _ _, rfl⟩
  have hadd := ht.tiling.add_region (Tiles.nil page : Tiles bucketByteSize page page [])
  rw [Multiset.coe_nil, zero_add] at hadd
  have hnew : Tiled h ((page, page) :: regions) others :=
    ⟨Tiled.regionsOk_shrink hregions (by omega), hadd, ht.bucket_lt, ht.header, ht.free⟩
  simpa [Phase.region, Phase.held] using hnew

theorem carve_spec (ht : Tiled h ((page, c) :: regions) others)
    (hok : (Phase.carve sz page c remaining).Ok h.mem) (hmin : MIN_BUCKET_SIZE ≤ remaining)
    (hregions : RegionsOk ((page, page + PAGESIZE) :: regions))
    (hnext : (Phase.carve sz page c remaining).next h tid page' = .ok (h', .suspended p)) :
    Advanced h h' regions others p := by
  obtain ⟨hsz, hcarving⟩ := hok
  obtain ⟨hsum, hle, hmem⟩ := hcarving
  obtain ⟨hlt, hfits, -⟩ := carving_cases hmem hmin
  rw [Phase.next, if_pos hmin] at hnext
  obtain ⟨rfl, rfl⟩ := suspended_inj hnext
  have hdvd : 16 ∣ c := Carving.dvd ⟨hsum, hle, hmem⟩ (hregions.start _ mem_cons_self).2.1
  obtain ⟨hnew, hkeeps⟩ := ht.carveHeld hlt (Tiled.regionsOk_shrink hregions (by omega)) hdvd
  refine ⟨?_, ⟨hsz, ⟨hsum, hle, hmem⟩, hmin, rfl, trivial⟩, hkeeps, rfl⟩
  simpa [Phase.region, Phase.held, HeapManager.setMem] using hnew

theorem pushCarved_spec
    (ht : Tiled h ((page, c + bucketByteSize bucket) :: regions) ((c, bucket) ::ₘ others))
    (hok : (Phase.pushCarved sz page c bucket remaining step).Ok h.mem) (hnext : (Phase.pushCarved
      sz page c bucket remaining step).next h tid page' = .ok (h', .suspended p)) :
    Advanced h h' regions others p := by
  obtain ⟨hsz, hcarving, hmin, rfl, hstep⟩ := hok
  rw [Phase.next] at hnext
  cases hpush : h.pushStep c (HeapManager.fitBucket remaining) step with
  | mk h₁ r =>
    rw [hpush] at hnext
    cases r with
    | some step' =>
      obtain ⟨rfl, rfl⟩ := suspended_inj hnext
      obtain ⟨htiled, hstep', hkeeps, hpages⟩ := ht.pushStep_some hstep hpush
      refine ⟨?_, ⟨hsz, hcarving, hmin, rfl, hstep'⟩, hkeeps, hpages⟩
      simpa [Phase.region, Phase.held] using htiled
    | none =>
      obtain ⟨rfl, rfl⟩ := suspended_inj hnext
      obtain ⟨htiled, hmem, hpages⟩ := ht.pushStep_none hstep hpush
      obtain ⟨hsum, hle, hrem⟩ := hcarving
      obtain ⟨hlt, hfits, hrest⟩ := carving_cases hrem hmin
      refine ⟨?_, ⟨hsz, ?_, ?_, hrest⟩, ?_, hpages⟩
      · simpa [Phase.region, Phase.held] using htiled
      · omega
      · omega
      · rw [hmem]
        exact Keeps.refl _ _

theorem free_step_spec (ht : Tiled h regions ((c, bucket) ::ₘ others))
    (hok : (Phase.free c bucket step).Ok h.mem)
    (hnext : (Phase.free c bucket step).next h tid page = .ok (h', .suspended p)) :
    Advanced h h' regions others p := by
  rw [Phase.next] at hnext
  cases hpush : h.pushStep c bucket step with
  | mk h₁ r =>
    rw [hpush] at hnext
    cases r with
    | some step' =>
      obtain ⟨rfl, rfl⟩ := suspended_inj hnext
      obtain ⟨htiled, hstep', hkeeps, hpages⟩ := ht.pushStep_some hok hpush
      refine ⟨?_, hstep', hkeeps, hpages⟩
      simpa [Phase.region, Phase.held] using htiled
    | none => simp at hnext

theorem Phase.next_freed (hnext : p.next h tid page = .ok (h', .freed)) :
    ∃ c bucket step, p = .free c bucket step := by
  cases p with
  | free c bucket step => exact ⟨c, bucket, step, rfl⟩
  | claim sz want c step => cases step <;> simp [Phase.next] at hnext
  | pop | popped | carve | pushRest | pushCarved | split | shrink | newPage =>
    grind [Phase.next]

theorem Phase.next_allocated {ptr : Nat} (hnext : p.next h tid page = .ok (h', .allocated ptr sz)) :
    ∃ sz want c step, p = .claim sz want c step := by
  cases p with
  | claim sz want c step => exact ⟨sz, want, c, step, rfl⟩
  | free | pop | popped | carve | pushRest | pushCarved | split | shrink | newPage =>
    grind [Phase.next]

theorem freed_spec (ht : Tiled h regions ((c, bucket) ::ₘ others))
    (hok : (Phase.free c bucket step).Ok h.mem)
    (hnext : (Phase.free c bucket step).next h tid page = .ok (h', .freed)) :
    Tiled h' regions others ∧ h'.mem = h.mem ∧ h'.pages = h.pages := by
  rw [Phase.next] at hnext
  cases hpush : h.pushStep c bucket step with
  | mk h₁ r =>
    rw [hpush] at hnext
    cases r with
    | some step' => simp at hnext
    | none =>
      rw [Except.ok.injEq, Prod.mk.injEq] at hnext
      obtain ⟨rfl, -⟩ := hnext
      exact ht.pushStep_none hok hpush

/-- The end of `newPage`: the page is cut, and `_allocate` starts again. -/
theorem carved_spec (hok : (Phase.carve sz page c remaining).Ok h.mem)
    (hend : ¬ MIN_BUCKET_SIZE ≤ remaining)
    (hnext : (Phase.carve sz page c remaining).next h tid page' = .ok (h', .suspended p)) :
    c = page + PAGESIZE ∧ h' = { h with pages := page :: h.pages } ∧ p = startAllocate sz ∧
      p.Ok h'.mem := by
  obtain ⟨hsz, hsum, -, hmem⟩ := hok
  rw [Phase.next, if_neg hend] at hnext
  obtain ⟨rfl, rfl⟩ := suspended_inj hnext
  have hzero : ∀ remaining ∈ [PAGESIZE, 368, 32, 0], ¬ MIN_BUCKET_SIZE ≤ remaining →
      remaining = 0 := by decide
  have := hzero remaining hmem hend
  exact ⟨by omega, rfl, rfl, fits_bucketIndex hsz, le_rfl⟩

theorem Phase.next_spec {p' : Phase} (ht : Tiled h (p.region.toList ++ regions) (p.held + others))
    (hok : p.Ok h.mem)
    (hnew : ∀ sz, p = .newPage sz → RegionsOk ((page, page + PAGESIZE) :: regions)) (hcut : ∀ sz pg
      c remaining, p = .carve sz pg c remaining → MIN_BUCKET_SIZE ≤ remaining ∧ RegionsOk ((pg, pg +
      PAGESIZE) :: regions)) (hnext : p.next h tid page = .ok (h', .suspended p')) :
    Advanced h h' regions others p' := by
  cases p with
  | pop sz want i =>
    have ht' : Tiled h regions others := by simpa [Phase.region, Phase.held] using ht
    exact pop_spec ht' hok hnext
  | split sz want i c => exact split_spec ht hok hnext
  | shrink sz want i c c1Size => exact shrink_spec ht hok hnext
  | pushRest sz want i c c1Bucket step =>
    have ht' : Tiled h regions ((c + bucketByteSize i, c1Bucket) ::ₘ (c, i) ::ₘ others) := by
      simpa [Phase.region, Phase.held] using ht
    exact pushRest_spec ht' hok hnext
  | popped sz want c =>
    rw [Phase.next, if_pos hok.2] at hnext
    obtain ⟨rfl, rfl⟩ := suspended_inj hnext
    exact ⟨ht, ⟨hok.1, trivial⟩, Keeps.refl _ _, rfl⟩
  | claim sz want c step => exact claim_spec ht hok hnext
  | newPage sz =>
    have ht' : Tiled h regions others := by simpa [Phase.region, Phase.held] using ht
    exact newPage_spec ht' hok (hnew sz rfl) hnext
  | carve sz pg c remaining =>
    obtain ⟨hmin, hregions⟩ := hcut sz pg c remaining rfl
    have ht' : Tiled h ((pg, c) :: regions) others := by
      simpa [Phase.region, Phase.held] using ht
    exact carve_spec ht' hok hmin hregions hnext
  | pushCarved sz pg c bucket remaining step => exact pushCarved_spec ht hok hnext
  | free c bucket step => exact free_step_spec ht hok hnext

end Step

namespace Preempt

/-! ## The invariant -/

/-- The regions of a heap and some calls. -/
def regionsOf (h : HeapManager) (calls : List Call) : List (Nat × Nat) :=
  calls.filterMap (fun x => x.phase.region) ++ pageRegions h.pages

/-- The chunks of some allocations and some calls. -/
def heldOf (h : HeapManager) (live : List (Nat × Nat)) (calls : List Call) :
    Multiset (Nat × Nat) :=
  chunksOf h live + (calls.map fun x => x.phase.held).sum

/-- What holds between the heap, its clients and the suspended calls. -/
structure Inv (s : Sys) : Prop where
  pages : PagesOk (s.regions.map Prod.fst)
  parts : ∀ r ∈ s.regions, LowerPart r
  tiled : Tiled s.heap s.regions s.held
  live : LivesOk s.heap.mem s.live
  calls : ∀ x ∈ s.calls, x.phase.Ok s.heap.mem

variable {h h' : HeapManager} {live : List (Nat × Nat)} {calls others : List Call} {x : Call}

theorem regionsOf_cons (h : HeapManager) (x : Call) (others : List Call) :
    regionsOf h (x :: others) = x.phase.region.toList ++ regionsOf h others := by
  unfold regionsOf
  cases hregion : x.phase.region <;> simp [hregion]

theorem heldOf_cons (h : HeapManager) (live : List (Nat × Nat)) (x : Call) (others : List Call) :
    heldOf h live (x :: others) = x.phase.held + heldOf h live others := by
  unfold heldOf
  rw [map_cons, sum_cons, add_left_comm]

theorem Inv.perm (hinv : Inv ⟨h, live, calls⟩) {calls' : List Call} (hperm : calls.Perm calls') :
    Inv ⟨h, live, calls'⟩ := by
  have hregions : (Sys.regions ⟨h, live, calls⟩).Perm (Sys.regions ⟨h, live, calls'⟩) :=
    (hperm.filterMap _).append_right _
  have hheld : Sys.held ⟨h, live, calls'⟩ = Sys.held ⟨h, live, calls⟩ := by
    unfold Sys.held
    rw [(hperm.map _).sum_eq]
  refine ⟨hinv.pages.perm (hregions.map _), fun r hr => hinv.parts r (hregions.mem_iff.mpr hr), ?_,
    hinv.live, fun x hx => hinv.calls x (hperm.mem_iff.mpr hx)⟩
  rw [hheld]
  exact hinv.tiled.perm hregions

variable {d : Nat × Nat} {regions : List (Nat × Nat)} {held : Multiset (Nat × Nat)}
  {tid page sz ptr : Nat} {p : Phase} {s : Sys}

theorem mem_heldOf_of_call (hx : x ∈ others) (hd : d ∈ x.phase.held) :
    d ∈ heldOf h live others := by
  refine Multiset.mem_add.mpr (Or.inr ?_)
  obtain ⟨l1, l2, rfl⟩ := append_of_mem hx
  rw [map_append, map_cons, sum_append, sum_cons]
  simp [hd]

theorem calls_keep (ht : Tiled h' regions (held + heldOf h' live others))
    (hkeeps : Keeps h.mem h'.mem (heldOf h live others)) (hok : ∀ x ∈ others, x.phase.Ok h.mem) :
    ∀ x ∈ others, x.phase.Ok h'.mem := by
  intro x hx
  refine (hok x hx).keeps (hkeeps.mono fun d hd => mem_heldOf_of_call hx hd) fun d hd => ?_
  exact ht.size_le (Tiled.held_mem _ (Multiset.mem_add.mpr (Or.inr (mem_heldOf_of_call hx hd))))

/-- The memory changes outside the chunks of the allocations and of the calls. -/
theorem heldOf_congr (ht : Tiled h regions (held + heldOf h live others))
    (hkeeps : Keeps h.mem h'.mem (heldOf h live others)) :
    heldOf h' live others = heldOf h live others := by
  unfold heldOf
  rw [chunksOf_congr hkeeps (fun d hd => Multiset.mem_add.mpr (Or.inl hd)) fun d hd => ?_]
  exact ht.size_le (Tiled.held_mem _ (Multiset.mem_add.mpr
    (Or.inr (Multiset.mem_add.mpr (Or.inl hd)))))

theorem livesOk_congr (ht : Tiled h regions (held + heldOf h live others))
    (hkeeps : Keeps h.mem h'.mem (heldOf h live others)) (hlive : LivesOk h.mem live) :
    LivesOk h'.mem live := by
  refine hlive.keeps hkeeps (fun d hd => Multiset.mem_add.mpr (Or.inl hd)) fun d hd => ?_
  exact ht.size_le (Tiled.held_mem _ (Multiset.mem_add.mpr
    (Or.inr (Multiset.mem_add.mpr (Or.inl hd)))))

theorem Inv.of_advanced (hinv : Inv ⟨h, live, x :: others⟩)
    (hadv : Advanced h h' (regionsOf h others) (heldOf h live others) p)
    (hpages : PagesOk ((p.region.toList ++ regionsOf h others).map Prod.fst))
    (hparts : ∀ r ∈ p.region.toList, LowerPart r) : Inv ⟨h', live, ⟨tid, p⟩ :: others⟩ := by
  have ht : Tiled h (regionsOf h (x :: others)) (heldOf h live (x :: others)) := hinv.tiled
  rw [heldOf_cons] at ht
  have hregions : regionsOf h' others = regionsOf h others := by
    unfold regionsOf
    rw [hadv.pages]
  have hheld := heldOf_congr ht hadv.keeps
  have htiled : Tiled h' (p.region.toList ++ regionsOf h' others) (p.held + heldOf h' live others) := by
    rw [hregions, hheld]
    exact hadv.tiled
  refine ⟨?_, ?_, ?_, livesOk_congr ht hadv.keeps hinv.live, ?_⟩
  · show PagesOk ((regionsOf h' (⟨tid, p⟩ :: others)).map Prod.fst)
    rw [regionsOf_cons, hregions]
    exact hpages
  · show ∀ r ∈ regionsOf h' (⟨tid, p⟩ :: others), LowerPart r
    rw [regionsOf_cons, hregions]
    intro r hr
    rcases mem_append.mp hr with hr | hr
    · exact hparts r hr
    · refine hinv.parts r ?_
      show r ∈ regionsOf h (x :: others)
      rw [regionsOf_cons]
      exact mem_append_right _ hr
  · show Tiled h' (regionsOf h' (⟨tid, p⟩ :: others)) (heldOf h' live (⟨tid, p⟩ :: others))
    rw [regionsOf_cons, heldOf_cons]
    exact htiled
  · intro y hy
    rcases mem_cons.mp hy with rfl | hy
    · exact hadv.ok
    · exact calls_keep htiled hadv.keeps
        (fun z hz => hinv.calls z (mem_cons_of_mem _ hz)) y hy

theorem returned_region (sz want i c : Nat) : (returned sz want i c).region = none := by
  unfold returned
  split_ifs <;> rfl

theorem region_next {p' : Phase} (hasks : p.asks = false)
    (hnext : p.next h tid page = .ok (h', .suspended p')) :
    ∀ r', p'.region = some r' → ∃ r, p.region = some r ∧ r'.1 = r.1 := by
  cases p with
  | newPage sz => simp [Phase.asks] at hasks
  | claim sz want c step => cases step <;> grind [Phase.next, Phase.region]
  | pop | popped | carve | pushRest | pushCarved | split | shrink | free =>
    grind [Phase.next, Phase.region, returned_region, startAllocate]

theorem lowerPart_region {m : Mem} (hok : p.Ok m) {r : Nat × Nat} (hr : p.region = some r)
    (hdvd : 16 ∣ r.1) : LowerPart r := by
  cases p with
  | carve sz page c remaining =>
    rw [Phase.region, Option.some.injEq] at hr
    subst hr
    have hc := hok.2.dvd hdvd
    obtain ⟨-, hsum, hle, -⟩ := hok
    exact ⟨hle, by dsimp only; omega, hc⟩
  | pushCarved sz page c bucket remaining step =>
    rw [Phase.region, Option.some.injEq] at hr
    subst hr
    obtain ⟨-, hcarving, hmin, rfl, -⟩ := hok
    have hc := hcarving.dvd hdvd
    obtain ⟨hsum, hle, hmem⟩ := hcarving
    obtain ⟨-, hfits, -⟩ := carving_cases hmem hmin
    exact ⟨by dsimp only; omega, by dsimp only; omega,
      (Nat.dvd_add_right hc).mpr (dvd_bucketByteSize _)⟩
  | pop | popped | pushRest | split | shrink | free | newPage | claim => simp [Phase.region] at hr

theorem Inv.regionsOk_full (hinv : Inv ⟨h, live, x :: others⟩)
    (hpages : PagesOk (page :: (regionsOf h others).map Prod.fst)) :
    RegionsOk ((page, page + PAGESIZE) :: regionsOf h others) := by
  have hsize : PAGESIZE = 16 * 256 := rfl
  refine PagesOk.regionsOk_of_parts hpages fun r hr => ?_
  rcases mem_cons.mp hr with rfl | hr
  · obtain ⟨-, hmod, -⟩ := hpages.page page (by simp)
    have h16 : 16 ∣ PAGESIZE := ⟨256, hsize⟩
    exact ⟨by dsimp only; omega, le_rfl, (h16.trans (Nat.dvd_of_mod_eq_zero hmod)).add h16⟩
  · refine hinv.parts r ?_
    show r ∈ regionsOf h (x :: others)
    rw [regionsOf_cons]
    exact mem_append_right _ hr

theorem Inv.carved {c remaining : Nat}
    (hinv : Inv ⟨h, live, ⟨tid, .carve sz page c remaining⟩ :: others⟩) (hc : c = page + PAGESIZE)
    (hp : p = startAllocate sz) (hok : p.Ok h.mem) :
    Inv ⟨{ h with pages := page :: h.pages }, live, ⟨tid, p⟩ :: others⟩ := by
  have hperm : (Sys.regions ⟨h, live, ⟨tid, .carve sz page c remaining⟩ :: others⟩).Perm
      (Sys.regions ⟨{ h with pages := page :: h.pages }, live, ⟨tid, p⟩ :: others⟩) := by
    subst hp hc
    exact perm_middle.symm
  have hheld : Sys.held ⟨{ h with pages := page :: h.pages }, live, ⟨tid, p⟩ :: others⟩
      = Sys.held ⟨h, live, ⟨tid, .carve sz page c remaining⟩ :: others⟩ := by
    subst hp
    rfl
  refine ⟨hinv.pages.perm (hperm.map _), fun r hr => hinv.parts r (hperm.mem_iff.mpr hr), ?_,
    hinv.live, fun y hy => ?_⟩
  · have ht := hinv.tiled.perm hperm
    rw [← hheld] at ht
    exact ⟨ht.regionsOk, ht.tiling, ht.bucket_lt, ht.header, ht.free⟩
  · rcases mem_cons.mp hy with rfl | hy
    · exact hok
    · exact hinv.calls y (mem_cons_of_mem _ hy)

theorem Inv.suspended (hinv : Inv ⟨h, live, x :: others⟩)
    (hallowed : x.phase.asks = true → PagesOk (page :: (regionsOf h (x :: others)).map Prod.fst))
    (hnext : x.phase.next h x.tid page = .ok (h', .suspended p)) :
    Inv ⟨h', live, ⟨x.tid, p⟩ :: others⟩ := by
  have hok := hinv.calls x (by simp)
  have hpages : PagesOk ((regionsOf h (x :: others)).map Prod.fst) := hinv.pages
  have ht : Tiled h (regionsOf h (x :: others)) (heldOf h live (x :: others)) := hinv.tiled
  rw [regionsOf_cons] at hpages ht hallowed
  rw [heldOf_cons] at ht
  have hregion : ∀ r, x.phase.region = some r →
      PagesOk (r.1 :: (regionsOf h others).map Prod.fst) := by
    intro r hr
    rw [hr] at hpages
    exact hpages
  by_cases hend : ∃ sz pg c remaining, x.phase = .carve sz pg c remaining ∧
      ¬ MIN_BUCKET_SIZE ≤ remaining
  · -- The page is complete.
    obtain ⟨tid, phase⟩ := x
    obtain ⟨sz, pg, c, remaining, rfl, hmin⟩ := hend
    obtain ⟨hc, rfl, hp, hok'⟩ := carved_spec hok hmin hnext
    exact hinv.carved hc hp hok'
  · have hadv : Advanced h h' (regionsOf h others) (heldOf h live others) p := by
      refine Phase.next_spec ht hok (fun sz hphase => ?_) (fun sz pg c remaining hphase => ?_) hnext
      · have hall := hallowed (by simp [hphase, Phase.asks])
        rw [hphase] at hall
        exact hinv.regionsOk_full hall
      · refine ⟨?_, hinv.regionsOk_full (hregion (pg, c) (by simp [hphase, Phase.region]))⟩
        by_contra hmin
        exact hend ⟨sz, pg, c, remaining, hphase, hmin⟩
    have hnew : ∀ r', p.region = some r' → PagesOk (r'.1 :: (regionsOf h others).map Prod.fst) := by
      intro r' hr'
      cases hasks : x.phase.asks with
      | true =>
        obtain ⟨sz, hphase⟩ : ∃ sz, x.phase = .newPage sz := by
          cases hphase : x.phase <;> simp [hphase, Phase.asks] at hasks
          exact ⟨_, rfl⟩
        have hall := hallowed hasks
        rw [hphase] at hall hnext
        rw [Phase.next] at hnext
        obtain ⟨-, rfl⟩ := suspended_inj hnext
        rw [Phase.region, Option.some.injEq] at hr'
        subst hr'
        exact hall
      | false =>
        obtain ⟨r, hr, heq⟩ := region_next hasks hnext r' hr'
        rw [heq]
        exact hregion r hr
    cases hr : p.region with
    | none =>
      refine hinv.of_advanced hadv ?_ (by simp [hr])
      rw [hr]
      cases hx : x.phase.region with
      | none =>
        rw [hx] at hpages
        exact hpages
      | some r => exact (hregion r hx).tail
    | some r =>
      have hall := hnew r hr
      refine hinv.of_advanced hadv ?_ fun r' hr' => ?_
      · rw [hr]
        exact hall
      · rw [hr, Option.toList_some, mem_singleton] at hr'
        subst hr'
        refine lowerPart_region hadv.ok hr ?_
        obtain ⟨-, hmod, -⟩ := hall.page r'.1 (by simp)
        have hsize : PAGESIZE = 4096 := rfl
        rw [hsize] at hmod
        omega

/-- The invariant without one call that ended, and with the allocations as they
are now. -/
theorem Inv.of_ended {live' : List (Nat × Nat)} (hinv : Inv ⟨h, live, x :: others⟩)
    (hregion : x.phase.region = none) (hpages : h'.pages = h.pages)
    (ht : Tiled h' (regionsOf h others) (heldOf h' live' others))
    (hlive : LivesOk h'.mem live') (hok : ∀ y ∈ others, y.phase.Ok h'.mem) :
    Inv ⟨h', live', others⟩ := by
  have hregions : regionsOf h' others = regionsOf h (x :: others) := by
    rw [regionsOf_cons, hregion]
    show regionsOf h' others = regionsOf h others
    unfold regionsOf
    rw [hpages]
  have hsame : regionsOf h (x :: others) = regionsOf h others := by
    rw [regionsOf_cons, hregion]
    rfl
  refine ⟨?_, ?_, ?_, hlive, hok⟩
  · show PagesOk ((regionsOf h' others).map Prod.fst)
    rw [hregions]
    exact hinv.pages
  · show ∀ r ∈ regionsOf h' others, LowerPart r
    rw [hregions]
    exact hinv.parts
  · show Tiled h' (regionsOf h' others) (heldOf h' live' others)
    rw [hregions, hsame]
    exact ht

theorem Inv.allocated (hinv : Inv ⟨h, live, x :: others⟩)
    (hnext : x.phase.next h x.tid page = .ok (h', .allocated ptr sz)) :
    Inv ⟨h', (ptr, sz) :: live, others⟩ := by
  obtain ⟨tid, phase⟩ := x
  obtain ⟨sz', want, c, step, rfl⟩ := Phase.next_allocated hnext
  have ht : Tiled h (regionsOf h (⟨tid, .claim sz' want c step⟩ :: others))
      (heldOf h live (⟨tid, .claim sz' want c step⟩ :: others)) := hinv.tiled
  rw [regionsOf_cons, heldOf_cons] at ht
  obtain ⟨rfl, rfl, htiled, hnew, hkeeps, hpages⟩ :=
    allocated_spec ht (hinv.calls _ mem_cons_self) hnext
  have hheld := heldOf_congr ht hkeeps
  have hheader : chunkBucket h'.mem c = want := htiled.header_cons
  have hchunk : chunkOf h' (c + 8) = (c, want) := by
    rw [chunkOf, Nat.add_sub_cancel, hheader]
  have hsum : heldOf h' ((c + 8, sz) :: live) others = (c, want) ::ₘ heldOf h live others := by
    rw [← hheld, heldOf, chunksOf_cons, hchunk, Multiset.cons_add]
    rfl
  refine hinv.of_ended rfl hpages ?_ ?_ ?_
  · rw [hsum]
    exact htiled
  · intro a ha
    rcases mem_cons.mp ha with rfl | ha
    · refine ⟨by dsimp only; omega, ?_⟩
      dsimp only
      rw [Nat.add_sub_cancel, hheader]
      exact hnew
    · exact livesOk_congr ht hkeeps hinv.live a ha
  · have htiled' : Tiled h' (regionsOf h others) ({(c, want)} + heldOf h' live others) := by
      rw [hheld]
      exact htiled
    exact calls_keep htiled' hkeeps fun y hy => hinv.calls y (mem_cons_of_mem _ hy)

theorem Inv.freed (hinv : Inv ⟨h, live, x :: others⟩)
    (hnext : x.phase.next h x.tid page = .ok (h', .freed)) : Inv ⟨h', live, others⟩ := by
  obtain ⟨tid, phase⟩ := x
  obtain ⟨c, bucket, step, rfl⟩ := Phase.next_freed hnext
  have ht : Tiled h (regionsOf h (⟨tid, .free c bucket step⟩ :: others))
      (heldOf h live (⟨tid, .free c bucket step⟩ :: others)) := hinv.tiled
  rw [regionsOf_cons, heldOf_cons] at ht
  obtain ⟨htiled, hmem, hpages⟩ := freed_spec ht (hinv.calls _ mem_cons_self) hnext
  have hkeeps : Keeps h.mem h'.mem (heldOf h live others) := by
    rw [hmem]
    exact Keeps.refl _ _
  have hheld := heldOf_congr ht hkeeps
  refine hinv.of_ended rfl hpages ?_ ?_ ?_
  · rw [hheld]
    exact htiled
  · rw [hmem]
    exact hinv.live
  · rw [hmem]
    exact fun y hy => hinv.calls y (mem_cons_of_mem _ hy)

theorem Inv.advance {s' : Sys} {n : Nat} (hinv : Inv s) (hallowed : (Op.advance n page).Allowed s)
    (hexec : exec s (.advance n page) = .ok s') :
    Inv s' := by
  obtain ⟨h, live, calls⟩ := s
  rw [exec] at hexec
  dsimp only at hexec
  cases hget : calls[n]? with
  | none =>
    rw [hget, Except.ok.injEq] at hexec
    exact hexec ▸ hinv
  | some x =>
    rw [hget] at hexec
    dsimp only at hexec
    have hperm : calls.Perm (x :: calls.eraseIdx n) := by
      obtain ⟨hn, rfl⟩ := List.getElem?_eq_some_iff.mp hget
      exact (getElem_cons_eraseIdx_perm hn).symm
    have hinv' := hinv.perm hperm
    have hpages : x.phase.asks = true →
        PagesOk (page :: (regionsOf h (x :: calls.eraseIdx n)).map Prod.fst) := by
      intro hasks
      have hall := hallowed x hget hasks
      refine hall.perm (List.Perm.cons _ (List.Perm.map _ ?_))
      exact (hperm.filterMap _).append_right _
    cases hnext : x.phase.next h x.tid page with
    | error e => simp [Sys.advance, hnext, Bind.bind, Except.bind] at hexec
    | ok r =>
      obtain ⟨h', outcome⟩ := r
      cases outcome with
      | suspended p =>
        simp only [Sys.advance, hnext, Bind.bind, Except.bind, Except.ok.injEq] at hexec
        exact hexec ▸ hinv'.suspended hpages hnext
      | allocated ptr sz =>
        simp only [Sys.advance, hnext, Bind.bind, Except.bind, Except.ok.injEq] at hexec
        exact hexec ▸ hinv'.allocated hnext
      | freed =>
        simp only [Sys.advance, hnext, Bind.bind, Except.bind, Except.ok.injEq] at hexec
        exact hexec ▸ hinv'.freed hnext

theorem Inv.allocate (hinv : Inv ⟨h, live, calls⟩) (hsz : sz ≤ MAX_SMALL_ALLOC_SIZE) :
    Inv ⟨h, live, ⟨tid, startAllocate sz⟩ :: calls⟩ := by
  have hheld : heldOf h live (⟨tid, startAllocate sz⟩ :: calls) = heldOf h live calls := by
    rw [heldOf_cons]
    exact zero_add _
  refine ⟨hinv.pages, hinv.parts, ?_, hinv.live, fun y hy => ?_⟩
  · show Tiled h (regionsOf h calls) (heldOf h live (⟨tid, startAllocate sz⟩ :: calls))
    rw [hheld]
    exact hinv.tiled
  · rcases mem_cons.mp hy with rfl | hy
    · exact ⟨fits_bucketIndex hsz, le_rfl⟩
    · exact hinv.calls y hy

theorem Inv.set_apart (hinv : Inv ⟨h, live, calls⟩) (hmem : (ptr, sz) ∈ live) :
    live.Perm ((ptr, sz) :: forget live ptr) ∧
      heldOf h live calls = chunkOf h ptr ::ₘ heldOf h (forget live ptr) calls ∧
      Tiled h (regionsOf h calls) (chunkOf h ptr ::ₘ heldOf h (forget live ptr) calls) := by
  have hnodup := nodup_chunksOf hinv.tiled
  have hsum : heldOf h live calls = chunkOf h ptr ::ₘ heldOf h (forget live ptr) calls := by
    unfold heldOf
    rw [chunksOf_forget hnodup hmem, Multiset.cons_add]
  refine ⟨forget_perm (nodup_live hnodup) hmem, hsum, ?_⟩
  rw [← hsum]
  exact hinv.tiled

theorem startFree_eq (hstart : startFree h ptr = .ok p) :
    p = .free (ptr - 8) (chunkBucket h.mem (ptr - 8)) .free := by
  unfold startFree at hstart
  dsimp only at hstart
  split_ifs at hstart
  exact (Except.ok.inj hstart).symm

/-- A call of `_free` starts: the chunk is no longer that of a live
allocation. -/
theorem Inv.free (hinv : Inv ⟨h, live, calls⟩) (hmem : ptr ∈ live.map Prod.fst)
    (hstart : startFree h ptr = .ok p) :
    Inv ⟨h, forget live ptr, ⟨tid, p⟩ :: calls⟩ := by
  obtain ⟨⟨ptr', sz⟩, hlive, rfl⟩ := mem_map.mp hmem
  obtain ⟨-, -, ht⟩ := hinv.set_apart hlive
  rw [startFree_eq hstart]
  refine ⟨hinv.pages, hinv.parts, ?_, hinv.live.forget _, fun y hy => ?_⟩
  · show Tiled h (regionsOf h calls) (heldOf h (forget live ptr') (⟨tid, _⟩ :: calls))
    rw [heldOf_cons]
    exact ht
  · rcases mem_cons.mp hy with rfl | hy
    · trivial
    · exact hinv.calls y hy

theorem Inv.write {offset : Nat} {v : UInt8} (hinv : Inv ⟨h, live, calls⟩) (hmem : (ptr, sz) ∈ live)
    (hlt : offset < sz) :
    Inv ⟨h.setMem (h.mem.put (ptr + offset) v), live, calls⟩ := by
  obtain ⟨hperm, hsum, ht⟩ := hinv.set_apart hmem
  obtain ⟨h8, hlive⟩ := hinv.live (ptr, sz) hmem
  dsimp only at h8 hlive
  rw [chunkOf] at ht
  have hfits := hlive.fits
  have hnine : CHUNK_HEADER_PLUS_RESERVED = 9 := rfl
  have hput := Mem.SameOutside.put h.mem (ptr + offset) v
  have hchunk : h.mem.SameOutside (h.mem.put (ptr + offset) v) (ptr - 8)
      (bucketByteSize (chunkBucket h.mem (ptr - 8))) := hput.mono (by omega) (by omega)
  have hheader : SameHeader h.mem (h.mem.put (ptr + offset) v) (ptr - 8) :=
    sameHeader_of_bytes fun x _ hhi => hput x (by omega)
  have hkeeps := ht.keeps hchunk
  have hwrite := ht.write hchunk hheader.bucket
  rw [← Multiset.singleton_add] at ht
  have hheld : heldOf (h.setMem (h.mem.put (ptr + offset) v)) live calls = heldOf h live calls := by
    have hlist : ∀ h', chunksOf h' live = chunksOf h' ((ptr, sz) :: forget live ptr) := by
      intro h'
      rw [chunksOf, Multiset.coe_eq_coe.mpr hperm, chunksOf]
    have hsame : chunkOf (h.setMem (h.mem.put (ptr + offset) v)) ptr = chunkOf h ptr := by
      rw [chunkOf, chunkOf, HeapManager.setMem_mem, hheader.bucket]
    have hrest : heldOf (h.setMem (h.mem.put (ptr + offset) v)) (forget live ptr) calls
        = heldOf h (forget live ptr) calls := heldOf_congr ht hkeeps
    rw [hsum, ← hrest, heldOf, hlist, chunksOf_cons, hsame, Multiset.cons_add]
    rfl
  have htiled : Tiled (h.setMem (h.mem.put (ptr + offset) v)) (regionsOf h calls)
      (heldOf h live calls) := by
    rw [hsum, chunkOf]
    exact hwrite
  refine ⟨hinv.pages, hinv.parts, ?_, fun a ha => ?_, ?_⟩
  · show Tiled _ (regionsOf h calls) (heldOf _ live calls)
    rw [hheld]
    exact htiled
  · rcases mem_cons.mp (hperm.mem_iff.mp ha) with rfl | ha
    · refine ⟨h8, ?_⟩
      dsimp only [HeapManager.setMem_mem]
      rw [hheader.bucket]
      exact hlive.of_bytes hheader.free (hput _ (by omega))
    · exact livesOk_congr ht hkeeps (hinv.live.forget ptr) a ha
  · have hall : Tiled (h.setMem (h.mem.put (ptr + offset) v)) (regionsOf h calls)
        ({chunkOf h ptr} + heldOf (h.setMem (h.mem.put (ptr + offset) v)) (forget live ptr) calls) := by
      rw [show heldOf (h.setMem (h.mem.put (ptr + offset) v)) (forget live ptr) calls
        = heldOf h (forget live ptr) calls from heldOf_congr ht hkeeps]
      exact hwrite
    exact calls_keep hall hkeeps hinv.calls

/-! ## Coalescing -/

theorem exists_call_of_mem (hd : d ∈ (calls.map fun x => x.phase.held).sum) :
    ∃ x ∈ calls, d ∈ x.phase.held := by
  induction calls with
  | nil => simp at hd
  | cons x calls ih =>
    rw [map_cons, sum_cons, Multiset.mem_add] at hd
    rcases hd with hd | hd
    · exact ⟨x, mem_cons_self, hd⟩
    · obtain ⟨y, hy, hmem⟩ := ih hd
      exact ⟨y, mem_cons_of_mem _ hy, hmem⟩

/-- A chunk of a call is exposed, or the other chunk of the call stands right
below it. -/
theorem exposed_of_held (hd : d ∈ p.held) :
    d.1 ∈ p.exposed ∨ ∃ d' ∈ p.held, d'.1 + bucketByteSize d'.2 = d.1 := by
  cases p with
  | pop | newPage | carve => simp [Phase.held] at hd
  | split | shrink | popped | claim | pushCarved | free =>
    rw [Phase.held, Multiset.mem_singleton] at hd
    subst hd
    exact Or.inl (mem_singleton_self _)
  | pushRest sz want i c c1Bucket step =>
    have hcases : d = (c + bucketByteSize i, c1Bucket) ∨ d = (c, i) := by
      simpa [Phase.held] using hd
    rcases hcases with rfl | rfl
    · exact Or.inr ⟨(c, i), by simp [Phase.held], rfl⟩
    · exact Or.inl (mem_singleton_self _)

/-- The end of the region of a call is exposed, or it is the end of the page, or a
chunk of the call stands right below it. -/
theorem exposed_of_region {m : Mem} (hok : p.Ok m) {r : Nat × Nat} (hr : p.region = some r)
    (hpage : PAGESIZE ∣ r.1) :
    PAGESIZE ∣ r.2 ∨ r.2 ∈ p.exposed ∨ ∃ d ∈ p.held, d.1 + bucketByteSize d.2 = r.2 := by
  cases p with
  | carve sz page c remaining =>
    rw [Phase.region, Option.some.injEq] at hr
    subst hr
    by_cases hmin : MIN_BUCKET_SIZE ≤ remaining
    · refine Or.inr (Or.inl ?_)
      rw [Phase.exposed, if_pos hmin]
      exact mem_singleton_self _
    · have hzero : ∀ remaining ∈ [PAGESIZE, 368, 32, 0], ¬ MIN_BUCKET_SIZE ≤ remaining →
          remaining = 0 := by decide
      obtain ⟨-, hsum, -, hmem⟩ := hok
      have hend : c = page + PAGESIZE := by
        have := hzero remaining hmem hmin
        omega
      dsimp only at hpage ⊢
      rw [hend]
      exact Or.inl (hpage.add (dvd_refl PAGESIZE))
  | pushCarved sz page c bucket remaining step =>
    rw [Phase.region, Option.some.injEq] at hr
    subst hr
    exact Or.inr (Or.inr ⟨(c, bucket), Multiset.mem_singleton_self _, rfl⟩)
  | pop | popped | pushRest | split | shrink | free | newPage | claim => simp [Phase.region] at hr

theorem Inv.guards (hinv : Inv ⟨h, live, calls⟩) (hmark : Unmarked ⟨h, live, calls⟩) :
    Guards h.mem (regionsOf h calls) (heldOf h live calls) := by
  have hpaged : Paged (regionsOf h calls) := hinv.pages.paged_of_parts hinv.parts
  refine ⟨fun d hd => ?_, fun r hr => ?_⟩
  · rcases Multiset.mem_add.mp hd with hd | hd
    · -- The chunk of a live allocation is marked allocated.
      obtain ⟨a, ha, rfl⟩ := Multiset.mem_map.mp hd
      obtain ⟨-, hlive⟩ := hinv.live a (Multiset.mem_coe.mp ha)
      have hfree : chunkFree h.mem (chunkOf h a.1).1 ≠ byte 'F' := by
        rw [chunkOf, hlive.free]
        decide
      exact Or.inl (by rw [HeapManager.isActive, decide_eq_false hfree, Bool.false_and])
    · obtain ⟨x, hx, hdx⟩ := exists_call_of_mem hd
      rcases exposed_of_held hdx with hexposed | ⟨d', hd', heq⟩
      · exact Or.inl (hmark x hx _ hexposed)
      · exact Or.inr ⟨d', mem_heldOf_of_call hx hd', heq⟩
  · have hstart := hpaged.start r hr
    rcases mem_append.mp hr with hr | hr
    · obtain ⟨x, hx, hregion⟩ := mem_filterMap.mp hr
      rcases exposed_of_region (hinv.calls x hx) hregion hstart with hend | hexposed | ⟨d, hd, heq⟩
      · exact Or.inl hend
      · exact Or.inr (Or.inl (hmark x hx _ hexposed))
      · exact Or.inr (Or.inr ⟨d, mem_heldOf_of_call hx hd, heq⟩)
    · obtain ⟨p, -, rfl⟩ := mem_map.mp hr
      exact Or.inl (hstart.add (dvd_refl PAGESIZE))

theorem Inv.coalesce (hinv : Inv ⟨h, live, calls⟩) (hmark : Unmarked ⟨h, live, calls⟩) :
    ∃ h', h.coalesce = .ok h' ∧ Inv ⟨h', live, calls⟩ ∧
      heldOf h' live calls = heldOf h live calls ∧
      Keeps h.mem h'.mem (heldOf h live calls) := by
  have hpaged : Paged (regionsOf h calls) := hinv.pages.paged_of_parts hinv.parts
  obtain ⟨h', hco, ht', hkeeps, hpages⟩ :=
    coalesce_guarded hinv.tiled hpaged (hinv.guards hmark)
  have ht : Tiled h (regionsOf h calls) (0 + heldOf h live calls) := by
    rw [zero_add]
    exact hinv.tiled
  have hheld : heldOf h' live calls = heldOf h live calls := heldOf_congr ht hkeeps
  have hregions : regionsOf h' calls = regionsOf h calls := by
    unfold regionsOf
    rw [hpages]
  refine ⟨h', hco, ⟨?_, ?_, ?_, livesOk_congr ht hkeeps hinv.live, ?_⟩, hheld, hkeeps⟩
  · show PagesOk ((regionsOf h' calls).map Prod.fst)
    rw [hregions]
    exact hinv.pages
  · show ∀ r ∈ regionsOf h' calls, LowerPart r
    rw [hregions]
    exact hinv.parts
  · show Tiled h' (regionsOf h' calls) (heldOf h' live calls)
    rw [hregions, hheld]
    exact ht'
  · have hall : Tiled h' (regionsOf h calls) (0 + heldOf h' live calls) := by
      rw [zero_add, hheld]
      exact ht'
    exact calls_keep hall hkeeps hinv.calls

/-! ## Every run -/

theorem inv_init (mem : Mem) : Inv (Sys.init mem) := by
  have hold := (HeapMgr.inv_init mem).heap.tiled
  refine ⟨⟨nodup_nil, by simp [Sys.init, Sys.regions, pageRegions]⟩,
    by simp [Sys.init, Sys.regions, pageRegions], ?_, by simp [LivesOk, Sys.init],
    by simp [Sys.init]⟩
  exact hold

theorem inv_step {s' : Sys} {op : Op} (hinv : Inv s) (hstep : UnmarkedStep s op s') : Inv s' := by
  obtain ⟨⟨hallowed, hexec⟩, hmark⟩ := hstep
  obtain ⟨h, live, calls⟩ := s
  cases op with
  | allocate tid sz =>
    rw [exec, Except.ok.injEq] at hexec
    exact hexec ▸ hinv.allocate hallowed
  | free tid ptr =>
    cases hstart : startFree h ptr with
    | error e => simp [exec, hstart, Bind.bind, Except.bind] at hexec
    | ok p =>
      simp only [exec, hstart, Bind.bind, Except.bind, Except.ok.injEq] at hexec
      exact hexec ▸ hinv.free hallowed hstart
  | advance n page => exact hinv.advance hallowed hexec
  | write ptr offset v =>
    obtain ⟨⟨ptr', sz⟩, hmem, rfl, hlt⟩ := hallowed
    rw [exec, Except.ok.injEq] at hexec
    exact hexec ▸ hinv.write hmem hlt
  | coalesce =>
    obtain ⟨h', hco, hinv', -⟩ := hinv.coalesce (hmark rfl)
    simp only [exec, hco, Bind.bind, Except.bind, Except.ok.injEq] at hexec
    exact hexec ▸ hinv'

theorem inv_of_run {mem : Mem} {ops : List Op} (hrun : Run UnmarkedStep (Sys.init mem) ops s) :
    Inv s :=
  hrun.invariant (inv_init mem) fun _ _ _ => inv_step

theorem Inv.apart (hinv : Inv s) :
    s.live.Pairwise fun a a' => a.1 + a.2 ≤ a'.1 ∨ a'.1 + a'.2 ≤ a.1 :=
  apart_of_tiled hinv.tiled hinv.live

/-- In every run in which `_coalesce` finds no chunk of a suspended call with both
marks:

* the live allocations do not overlap;
* the free chunks and the chunks of the allocations and of the suspended calls
  tile the memory of the heap;
* when no chunk of a suspended call bears both marks, `_coalesce` returns.  The
  suspended calls hold the same chunks as before, not a byte of these was
  changed, and no free chunk overlaps one of them. -/
theorem apart_of_run {mem : Mem} {ops : List Op} {s : Sys}
    (hrun : Run UnmarkedStep (Sys.init mem) ops s) :
    (s.live.Pairwise fun a a' => a.1 + a.2 ≤ a'.1 ∨ a'.1 + a'.2 ≤ a.1) ∧
    Tiling bucketByteSize s.regions (s.heap.freeChunks + s.held) ∧
    (Unmarked s → ∃ s', exec s .coalesce = .ok s' ∧ s'.live = s.live ∧ s'.calls = s.calls ∧
      s'.held = s.held ∧ Keeps s.heap.mem s'.heap.mem s.held ∧
      ∀ d ∈ s.held, ∀ f ∈ s'.heap.freeChunks,
        f.1 + bucketByteSize f.2 ≤ d.1 ∨ d.1 + bucketByteSize d.2 ≤ f.1) := by
  have hinv := inv_of_run hrun
  refine ⟨hinv.apart, hinv.tiled.tiling, fun hmark => ?_⟩
  obtain ⟨h', hco, hinv', hheld, hkeeps⟩ := hinv.coalesce hmark
  refine ⟨⟨h', s.live, s.calls⟩, ?_, rfl, rfl, hheld, hkeeps, fun d hd f hf => ?_⟩
  · simp only [exec, hco, Bind.bind, Except.bind]
  · have htiled : Tiled h' _ (heldOf h' s.live s.calls) := hinv'.tiled
    have hd' : d ∈ heldOf h' s.live s.calls := by
      rw [hheld]
      exact hd
    have hfmem : f ∈ h'.freeChunks + heldOf h' s.live s.calls := Multiset.mem_add.mpr (Or.inl hf)
    have hdmem := Tiled.held_mem (h := h') _ hd'
    have hnodup := htiled.apart.1
    rw [Multiset.map_add] at hnodup
    refine htiled.apart.2 f hfmem d hdmem fun heq => ?_
    exact (Multiset.disjoint_left.mp (Multiset.nodup_add.mp hnodup).2.2)
      (Multiset.mem_map_of_mem _ hf) (heq ▸ Multiset.mem_map_of_mem _ hd')

/-- `n` steps of the call that moved last. -/
def steps (n : Nat) : List Op := List.replicate n (.advance 0 4096)

/-- Task 1 has ten bytes, and task 2 is suspended while it cuts a chunk, when the
heap is coalesced. -/
def quietRun : List Op :=
  .allocate 1 10 :: steps 35 ++ .allocate 2 10 :: steps 8 ++ [.coalesce]

theorem apart_of_run_two_tasks :
    ∃ s, Run UnmarkedStep (Sys.init fun _ => 0) quietRun s ∧ s.live.length = 1 ∧
      s.calls.length = 1 ∧ s.live.Pairwise fun a a' => a.1 + a.2 ≤ a'.1 ∨ a'.1 + a'.2 ≤ a.1 := by
  have hplay : (quietRun.foldlM Sys.playUnmarked (Sys.init fun _ => 0)).map
      (fun s => (s.live.length, s.calls.length)) = some (1, 1) := by
    decide +kernel
  obtain ⟨s, hs, hlengths⟩ := Option.map_eq_some_iff.mp hplay
  rw [Prod.mk.injEq] at hlengths
  have hrun : Run UnmarkedStep (Sys.init fun _ => 0) quietRun s :=
    .of_foldlM (fun _ _ _ => Sys.step_of_playUnmarked) hs
  exact ⟨s, hrun, hlengths.1, hlengths.2, (apart_of_run hrun).1⟩

/-- Task 1 asks for 20 bytes, writes `'C'` into the tenth, frees them and asks for
one byte.  Its chunk is cut, and the tenth byte is now in the header of the rest.
Task 2 pops the rest and is suspended after its assertion.  Task 1 frees its
byte, and the heap is coalesced.  Task 3 asks for 20 bytes, and task 2 goes on. -/
def markedRun : List Op :=
  .allocate 1 20 :: steps 35 ++ .write 8168 9 (byte 'C') :: .free 1 8168 :: steps 4 ++
    .allocate 1 1 :: steps 13 ++ .allocate 2 1 :: steps 2 ++ .free 1 8168 :: steps 4 ++
    .coalesce :: .allocate 3 20 :: steps 6 ++ steps 4

/-- The byte of task 2 stands in the bytes of task 3. -/
theorem overlap_after_coalesce :
    ∃ s, Run Step (Sys.init fun _ => 0) markedRun s ∧ s.live = [(8184, 1), (8168, 20)] ∧
      ¬ s.live.Pairwise fun a a' => a.1 + a.2 ≤ a'.1 ∨ a'.1 + a'.2 ≤ a.1 := by
  have hplay : (markedRun.foldlM Sys.play (Sys.init fun _ => 0)).map Sys.live
      = some [(8184, 1), (8168, 20)] := by
    decide +kernel
  obtain ⟨s, hs, hlive⟩ := Option.map_eq_some_iff.mp hplay
  refine ⟨s, .of_foldlM (fun _ _ _ => Sys.step_of_play) hs, hlive, ?_⟩
  rw [hlive]
  decide

end Preempt

end Hostboot.HeapMgr
