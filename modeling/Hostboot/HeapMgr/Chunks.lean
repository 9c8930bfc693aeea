import Mathlib
import Hostboot.Lib.Buckets
import Hostboot.Lib.Tiling
import Hostboot.HeapMgr.Core

/-!
# The chunks of the small heap

`Tiled h regions held` is the invariant of the small heap between two of its
elementary steps: the chunks in the free stacks and the chunks of `held`
together tile the regions.  The chunks of `held` are those outside the free
stacks: the allocated ones, one that was just popped, or the chain of
`_coalesce`.

The header of a chunk fills the first eight bytes, and chunks start at
multiples of 16.  `HeaderOnly m m' c` is the frame condition of every header
update: it changes nothing but the header of `c`.

Each operation has one lemma.  `Tiled.pushBucket` moves a chunk from `held`
to its free stack, `Tiled.popBucket` moves one back and splits it, and
`Tiled.carve` makes a chunk at the end of a region.
-/

namespace Hostboot.HeapMgr

open Hostboot.Lib Hostboot.Util

/-! ## Bucket sizes -/

theorem bucketByteSize_lt {i j : Nat} (hij : i < j) (hj : j < BUCKETS) :
    bucketByteSize i < bucketByteSize j := by
  have h : ∀ j < BUCKETS, ∀ i < j, bucketByteSize i < bucketByteSize j := by decide
  exact h j hj i hij

theorem bucketByteSize_le {i j : Nat} (hij : i ≤ j) (hj : j < BUCKETS) :
    bucketByteSize i ≤ bucketByteSize j := by
  rcases Nat.eq_or_lt_of_le hij with rfl | hlt
  · exact le_rfl
  · exact (bucketByteSize_lt hlt hj).le

theorem dvd_bucketByteSize (i : Nat) : 16 ∣ bucketByteSize i := by
  have h : ∀ i < BUCKETS, 16 ∣ bucketByteSize i := by decide
  by_cases hi : i < BUCKETS
  · exact h i hi
  · have hlen : cvChunkSize.length ≤ i := by
      simpa [cvChunkSize] using hi
    rw [bucketByteSize, List.getD_eq_default _ _ hlen]
    exact dvd_zero 16

theorem le_bucketByteSize {i : Nat} (hi : i < BUCKETS) : MIN_BUCKET_SIZE ≤ bucketByteSize i :=
  bucketByteSize_le (Nat.zero_le i) hi

theorem bucketByteSize_le_max {i : Nat} (hi : i < BUCKETS) : bucketByteSize i ≤ 3728 := by
  have h : ∀ i < BUCKETS, bucketByteSize i ≤ 3728 := by decide
  exact h i hi

/-- `b` is the smallest bucket that `sz` bytes fit into. -/
def Smallest (sz b : Nat) : Prop :=
  sz ≤ bucketByteSize b ∧ ∀ i < b, bucketByteSize i < sz

theorem Smallest.unique {sz b b' : Nat} (h : Smallest sz b) (h' : Smallest sz b') : b = b' := by
  rcases Nat.lt_trichotomy b b' with hlt | heq | hgt
  · exact absurd h.1 (not_le.mpr (h'.2 b hlt))
  · exact heq
  · exact absurd h'.1 (not_le.mpr (h.2 b' hgt))

/-- The binary search keeps a range whose upper end is large enough while
everything below it is too small. -/
theorem bucketIndexLoop_smallest (outside : Nat) {sz : Nat} (fuel low high bucket : Nat)
    (hfuel : high - low < fuel) (hle : low ≤ high) (hhigh : high < BUCKETS)
    (hfit : sz ≤ bucketByteSize high) (hlow : ∀ i < low, bucketByteSize i < sz) :
    bucketIndexLoop outside sz fuel low high bucket < BUCKETS ∧
      Smallest sz (bucketIndexLoop outside sz fuel low high bucket) := by
  induction fuel generalizing low high bucket with
  | zero => omega
  | succ fuel ih =>
    have hmid : (((low : Int) + high) / 2).toNat = (low + high) / 2 := by omega
    rw [bucketIndexLoop, if_pos (by omega)]
    simp only [hmid]
    by_cases hgt : sz > bucketByteSize ((low + high) / 2)
    · have hne : (low + high) / 2 ≠ high := by
        intro heq
        rw [heq] at hgt
        omega
      rw [if_pos hgt]
      refine ih ((low + high) / 2 + 1) high _ (by omega) (by omega) hhigh hfit ?_
      intro i hi
      exact lt_of_le_of_lt (bucketByteSize_le (by omega) (by omega)) hgt
    · rw [if_neg hgt]
      by_cases hzero : (low + high) / 2 = 0
      · -- Bucket 0 fits: the word below the table is read, and both answers are 0.
        have hsmall : Smallest sz 0 := by
          refine ⟨?_, fun i hi => absurd hi (Nat.not_lt_zero i)⟩
          rw [hzero] at hgt
          omega
        rw [hzero]
        split
        · exact ⟨by decide, hsmall⟩
        · cases fuel with
          | zero =>
            rw [bucketIndexLoop]
            exact ⟨by decide, hsmall⟩
          | succ fuel =>
            rw [bucketIndexLoop, if_neg (by omega)]
            exact ⟨by decide, hsmall⟩
      · have hpred : (((low + high) / 2 : Nat) : Int) - 1 = ((low + high) / 2 - 1 : Nat) := by
          omega
        have hread : chunkSizeAt outside (((low + high) / 2 - 1 : Nat) : Int)
            = bucketByteSize ((low + high) / 2 - 1) := by
          rw [chunkSizeAt, if_pos (Int.natCast_nonneg _), Int.toNat_natCast]
        rw [hpred, hread]
        by_cases hbreak : sz > bucketByteSize ((low + high) / 2 - 1)
        · rw [if_pos hbreak]
          refine ⟨by omega, by omega, fun i hi => ?_⟩
          exact lt_of_le_of_lt (bucketByteSize_le (by omega) (by omega)) hbreak
        · have hlow' : low ≤ (low + high) / 2 - 1 := by
            by_contra hlt
            exact hbreak (hlow _ (by omega))
          rw [if_neg hbreak]
          exact ih low _ _ (by omega) hlow' (by omega) (by omega) hlow

theorem bucketIndexAt_smallest (outside : Nat) {sz : Nat}
    (hsz : sz ≤ bucketByteSize (BUCKETS - 1)) :
    bucketIndexAt outside sz < BUCKETS ∧ Smallest sz (bucketIndexAt outside sz) := by
  rw [bucketIndexAt, if_neg (by omega)]
  exact bucketIndexLoop_smallest outside BUCKETS 0 (BUCKETS - 1) 0 (by decide) (by decide)
    (by decide) hsz (by simp)

theorem bucketIndexAt_eq (outside sz : Nat) : bucketIndexAt outside sz = bucketIndex sz := by
  by_cases hsz : sz ≤ bucketByteSize (BUCKETS - 1)
  · exact (bucketIndexAt_smallest outside hsz).2.unique (bucketIndexAt_smallest 0 hsz).2
  · rw [bucketIndex, bucketIndexAt, bucketIndexAt, if_pos (by omega), if_pos (by omega)]

theorem bucketIndex_smallest {sz : Nat} (hsz : sz ≤ bucketByteSize (BUCKETS - 1)) :
    bucketIndex sz < BUCKETS ∧ Smallest sz (bucketIndex sz) :=
  bucketIndexAt_smallest 0 hsz

theorem bucketIndex_bucketByteSize {b : Nat} (hb : b < BUCKETS) :
    bucketIndex (bucketByteSize b) = b := by
  have hle : bucketByteSize b ≤ bucketByteSize (BUCKETS - 1) :=
    bucketByteSize_le (by omega) (by decide)
  exact (bucketIndex_smallest hle).2.unique ⟨le_rfl, fun i hi => bucketByteSize_lt hi hb⟩

/-! ## Headers -/

section Header

variable (m : Mem) (c : Nat)

@[simp] theorem chunkFree_setFree (v : UInt8) : chunkFree (setFree m c v) c = v :=
  Mem.put_same m c v

@[simp] theorem chunkFree_setCoalesce (v : UInt8) :
    chunkFree (setCoalesce m c v) c = chunkFree m c :=
  Mem.put_of_ne v (by omega)

@[simp] theorem chunkFree_setBucket (v : Nat) : chunkFree (setBucket m c v) c = chunkFree m c :=
  Mem.SameOutside.put16 m (c + 6) v c (by omega)

@[simp] theorem chunkFree_setSize (v : Nat) : chunkFree (setSize m c v) c = chunkFree m c :=
  Mem.SameOutside.put16 m (c + 2) v c (by omega)

@[simp] theorem chunkFree_setAllocator (v : Nat) :
    chunkFree (setAllocator m c v) c = chunkFree m c :=
  Mem.SameOutside.put16 m (c + 4) v c (by omega)

@[simp] theorem chunkCoalesce_setCoalesce (v : UInt8) : chunkCoalesce (setCoalesce m c v) c = v :=
  Mem.put_same m (c + 1) v

@[simp] theorem chunkCoalesce_setBucket (v : Nat) :
    chunkCoalesce (setBucket m c v) c = chunkCoalesce m c :=
  Mem.SameOutside.put16 m (c + 6) v (c + 1) (by omega)

@[simp] theorem chunkBucket_setFree (v : UInt8) :
    chunkBucket (setFree m c v) c = chunkBucket m c :=
  Mem.get16_congr (Mem.put_of_ne v (by omega)) (Mem.put_of_ne v (by omega))

@[simp] theorem chunkBucket_setCoalesce (v : UInt8) :
    chunkBucket (setCoalesce m c v) c = chunkBucket m c :=
  Mem.get16_congr (Mem.put_of_ne v (by omega)) (Mem.put_of_ne v (by omega))

@[simp] theorem chunkBucket_setSize (v : Nat) :
    chunkBucket (setSize m c v) c = chunkBucket m c :=
  Mem.get16_congr (Mem.SameOutside.put16 m (c + 2) v _ (by omega))
    (Mem.SameOutside.put16 m (c + 2) v _ (by omega))

@[simp] theorem chunkBucket_setAllocator (v : Nat) :
    chunkBucket (setAllocator m c v) c = chunkBucket m c :=
  Mem.get16_congr (Mem.SameOutside.put16 m (c + 4) v _ (by omega))
    (Mem.SameOutside.put16 m (c + 4) v _ (by omega))

theorem chunkBucket_setBucket {v : Nat} (hv : v < BUCKETS) :
    chunkBucket (setBucket m c v) c = v := by
  have hlt : v < 65536 := lt_trans hv (by decide)
  exact Mem.get16_put16 m (c + 6) hlt

theorem sameOutside_setFree (v : UInt8) : m.SameOutside (setFree m c v) c 8 :=
  (Mem.SameOutside.put m c v).mono le_rfl (by omega)

theorem sameOutside_setCoalesce (v : UInt8) : m.SameOutside (setCoalesce m c v) c 8 :=
  (Mem.SameOutside.put m (c + 1) v).mono (by omega) (by omega)

theorem sameOutside_setSize (v : Nat) : m.SameOutside (setSize m c v) c 8 :=
  (Mem.SameOutside.put16 m (c + 2) v).mono (by omega) (by omega)

theorem sameOutside_setAllocator (v : Nat) : m.SameOutside (setAllocator m c v) c 8 :=
  (Mem.SameOutside.put16 m (c + 4) v).mono (by omega) (by omega)

theorem sameOutside_setBucket (v : Nat) : m.SameOutside (setBucket m c v) c 8 :=
  (Mem.SameOutside.put16 m (c + 6) v).mono (by omega) (by omega)

end Header

/-- The header of a chunk that a write does not reach. -/
structure SameHeader (m m' : Mem) (d : Nat) : Prop where
  free : chunkFree m' d = chunkFree m d
  coalesce : chunkCoalesce m' d = chunkCoalesce m d
  bucket : chunkBucket m' d = chunkBucket m d

theorem sameHeader_of_bytes {m m' : Mem} {d : Nat} (h : ∀ x, d ≤ x → x < d + 8 → m' x = m x) :
    SameHeader m m' d where
  free := h d (by omega) (by omega)
  coalesce := h (d + 1) (by omega) (by omega)
  bucket := Mem.get16_congr (h (d + 6) (by omega) (by omega)) (h (d + 6 + 1) (by omega) (by omega))

theorem SameHeader.trans {m m' m'' : Mem} {d : Nat} (h : SameHeader m m' d)
    (h' : SameHeader m' m'' d) : SameHeader m m'' d :=
  ⟨h'.free.trans h.free, h'.coalesce.trans h.coalesce, h'.bucket.trans h.bucket⟩

theorem sameHeader_of_ne {m m' : Mem} {c d : Nat} (h : m.SameOutside m' c 8) (hc : 16 ∣ c)
    (hd : 16 ∣ d) (hne : d ≠ c) : SameHeader m m' d := by
  apply sameHeader_of_bytes
  intro x hlo hhi
  exact h x (by omega)

/-- What a push does to the header of the chunk. -/
def markFree (m : Mem) (c : Nat) : Mem := setAllocator (setSize (setFree m c (byte 'F')) c 0) c 0

theorem sameOutside_markFree (m : Mem) (c : Nat) : m.SameOutside (markFree m c) c 8 :=
  ((sameOutside_setFree m c _).trans (sameOutside_setSize _ c 0)).trans
    (sameOutside_setAllocator _ c 0)

@[simp] theorem chunkFree_markFree (m : Mem) (c : Nat) : chunkFree (markFree m c) c = byte 'F' := by
  simp [markFree]

@[simp] theorem chunkBucket_markFree (m : Mem) (c : Nat) :
    chunkBucket (markFree m c) c = chunkBucket m c := by
  simp [markFree]

/-! ## The invariant -/

/-- The regions do not overlap, start at a multiple of 16 above null, and end
at 4 GB at most. -/
structure RegionsOk (regions : List (Nat × Nat)) : Prop where
  apart : regions.Pairwise fun r r' => r.2 ≤ r'.1 ∨ r'.2 ≤ r.1
  start : ∀ r ∈ regions, 0 < r.1 ∧ 16 ∣ r.1 ∧ r.2 ≤ 2 ^ 32

/-- The chunks in the free stacks, each with the number of its stack. -/
def HeapManager.freeChunks (h : HeapManager) : Multiset (Nat × Nat) :=
  Buckets.content BUCKETS (fun b c => {(c, b)}) h.firstChunk

/-- The free chunks and the chunks of `held` tile the regions, every header
has the bucket of its chunk, and the free ones are marked free. -/
structure Tiled (h : HeapManager) (regions : List (Nat × Nat)) (held : Multiset (Nat × Nat)) :
    Prop where
  regionsOk : RegionsOk regions
  tiling : Tiling bucketByteSize regions (h.freeChunks + held)
  bucket_lt : ∀ c ∈ h.freeChunks + held, c.2 < BUCKETS
  header : ∀ c ∈ h.freeChunks + held, chunkBucket h.mem c.1 = c.2
  free : ∀ c ∈ h.freeChunks, chunkFree h.mem c.1 = byte 'F'

/-- The bytes of the chunks of `held` are as before. -/
def Keeps (m m' : Mem) (held : Multiset (Nat × Nat)) : Prop :=
  ∀ d ∈ held, ∀ x, d.1 ≤ x → x < d.1 + bucketByteSize d.2 → m' x = m x

theorem Keeps.refl (m : Mem) (held : Multiset (Nat × Nat)) : Keeps m m held :=
  fun _ _ _ _ _ => rfl

theorem Keeps.trans {m m' m'' : Mem} {held : Multiset (Nat × Nat)} (h : Keeps m m' held)
    (h' : Keeps m' m'' held) : Keeps m m'' held := by
  intro d hd x hlo hhi
  rw [h' d hd x hlo hhi, h d hd x hlo hhi]

theorem Keeps.mono {m m' : Mem} {held held' : Multiset (Nat × Nat)} (h : Keeps m m' held')
    (hsub : held ⊆ held') : Keeps m m' held :=
  fun d hd => h d (hsub hd)

namespace Tiled

variable {h : HeapManager} {regions : List (Nat × Nat)} {held : Multiset (Nat × Nat)}
  {c b : Nat} {d : Nat × Nat}

theorem dvd (ht : Tiled h regions held) (hd : d ∈ h.freeChunks + held) : 16 ∣ d.1 :=
  ht.tiling.dvd (fun r hr => (ht.regionsOk.start r hr).2.1) (fun c _ => dvd_bucketByteSize c.2) hd

theorem size_le (ht : Tiled h regions held) (hd : d ∈ h.freeChunks + held) :
    16 ≤ bucketByteSize d.2 :=
  le_bucketByteSize (ht.bucket_lt d hd)

theorem bounds (ht : Tiled h regions held) (hd : d ∈ h.freeChunks + held) :
    0 < d.1 ∧ d.1 + bucketByteSize d.2 ≤ 2 ^ 32 := by
  obtain ⟨r, hr, hlo, hhi⟩ := ht.tiling.bounds hd
  obtain ⟨h1, -, h3⟩ := ht.regionsOk.start r hr
  omega

theorem apart (ht : Tiled h regions held) :
    ((h.freeChunks + held).map Prod.fst).Nodup ∧
      ∀ d ∈ h.freeChunks + held, ∀ d' ∈ h.freeChunks + held, d.1 ≠ d'.1 →
        d.1 + bucketByteSize d.2 ≤ d'.1 ∨ d'.1 + bucketByteSize d'.2 ≤ d.1 :=
  ht.tiling.apart (fun d hd => lt_of_lt_of_le (by decide) (ht.size_le hd)) ht.regionsOk.apart

theorem addr_ne (ht : Tiled h regions ((c, b) ::ₘ held)) (hd : d ∈ h.freeChunks + held) :
    d.1 ≠ c := by
  have hnodup := ht.apart.1
  rw [Multiset.add_cons, Multiset.map_cons, Multiset.nodup_cons] at hnodup
  intro heq
  exact hnodup.1 (Multiset.mem_map.mpr ⟨d, hd, heq⟩)

theorem held_mem (held : Multiset (Nat × Nat)) (hd : d ∈ held) : d ∈ h.freeChunks + held :=
  Multiset.mem_add.mpr (Or.inr hd)

theorem cons_mem (hd : d ∈ h.freeChunks + held) : d ∈ h.freeChunks + (c, b) ::ₘ held := by
  rw [Multiset.add_cons]
  exact Multiset.mem_cons_of_mem hd

theorem cons_apart (ht : Tiled h regions ((c, b) ::ₘ held)) (hd : d ∈ h.freeChunks + held) :
    d.1 + bucketByteSize d.2 ≤ c ∨ c + bucketByteSize b ≤ d.1 :=
  ht.apart.2 d (cons_mem hd) (c, b) (held_mem _ (Multiset.mem_cons_self _ _)) (ht.addr_ne hd)

theorem keeps (ht : Tiled h regions ((c, b) ::ₘ held)) {m m' : Mem}
    (hsame : m.SameOutside m' c (bucketByteSize b)) : Keeps m m' held := by
  intro d hd x hlo hhi
  have hapart := ht.cons_apart (held_mem held hd)
  exact hsame x (by omega)

theorem sameHeader (ht : Tiled h regions ((c, b) ::ₘ held)) {m m' : Mem}
    (hsame : m.SameOutside m' c (bucketByteSize b)) (hd : d ∈ h.freeChunks + held) :
    SameHeader m m' d.1 := by
  have hapart := ht.cons_apart hd
  have hsize := ht.size_le (cons_mem hd)
  apply sameHeader_of_bytes
  intro x hlo hhi
  exact hsame x (by omega)

/-- A write into one chunk outside the free stacks that leaves its bucket. -/
theorem write (ht : Tiled h regions ((c, b) ::ₘ held)) {m' : Mem}
    (hsame : h.mem.SameOutside m' c (bucketByteSize b)) (hb : chunkBucket m' c = b) :
    Tiled { h with mem := m' } regions ((c, b) ::ₘ held) where
  regionsOk := ht.regionsOk
  tiling := ht.tiling
  bucket_lt := ht.bucket_lt
  header := by
    intro d hd
    rw [Multiset.add_cons, Multiset.mem_cons] at hd
    rcases hd with rfl | hd
    · exact hb
    · rw [(ht.sameHeader hsame hd).bucket]
      exact ht.header d (cons_mem hd)
  free := by
    intro d hd
    rw [(ht.sameHeader hsame (Multiset.mem_add.mpr (Or.inl hd))).free]
    exact ht.free d hd

theorem size_cons (ht : Tiled h regions ((c, b) ::ₘ held)) : 16 ≤ bucketByteSize b :=
  ht.size_le (d := (c, b)) (held_mem _ (Multiset.mem_cons_self _ _))

theorem header_cons (ht : Tiled h regions ((c, b) ::ₘ held)) : chunkBucket h.mem c = b :=
  ht.header (c, b) (held_mem _ (Multiset.mem_cons_self _ _))

/-! ## Pushing a chunk -/

theorem pushBucket_eq {b : Nat} (hb : b < BUCKETS) (hc : c < 2 ^ 32) :
    h.pushBucket c b = { h with
      firstChunk := Function.update h.firstChunk b (c :: h.firstChunk b)
      mem := markFree h.mem c } := by
  rw [HeapManager.pushBucket, if_neg (by omega), Stack.push, getPtr_of_lt hc]
  rfl

theorem freeChunks_push (h : HeapManager) (m : Mem) (c : Nat) {b : Nat} (hb : b < BUCKETS) :
    HeapManager.freeChunks { h with
      firstChunk := Function.update h.firstChunk b (c :: h.firstChunk b), mem := m }
      = (c, b) ::ₘ h.freeChunks := by
  rw [HeapManager.freeChunks, Buckets.content_push _ _ _ hb, HeapManager.freeChunks, add_comm,
    Multiset.singleton_add]

/-- A chunk that is marked free moves to the free stack of its bucket. -/
theorem link (ht : Tiled h regions ((c, b) ::ₘ held)) (hfree : chunkFree h.mem c = byte 'F') :
    Tiled { h with firstChunk := Function.update h.firstChunk b (c :: h.firstChunk b) }
      regions held := by
  have hb : b < BUCKETS := ht.bucket_lt (c, b) (held_mem _ (Multiset.mem_cons_self _ _))
  have hsum : (c, b) ::ₘ h.freeChunks + held = h.freeChunks + (c, b) ::ₘ held := by
    rw [Multiset.cons_add, Multiset.add_cons]
  have hpush := freeChunks_push h h.mem c hb
  refine ⟨ht.regionsOk, ?_, ?_, ?_, ?_⟩
  · rw [hpush, hsum]
    exact ht.tiling
  · rw [hpush, hsum]
    exact ht.bucket_lt
  · rw [hpush, hsum]
    exact ht.header
  · rw [hpush]
    intro d hd
    rcases Multiset.mem_cons.mp hd with rfl | hd
    · exact hfree
    · exact ht.free d hd

theorem lt_of_held (ht : Tiled h regions ((c, b) ::ₘ held)) : c < 2 ^ 32 := by
  have h1 := ht.bounds (held_mem _ (Multiset.mem_cons_self _ _))
  have h2 := ht.size_cons
  dsimp only at h1
  omega

theorem pushBucket (ht : Tiled h regions ((c, b) ::ₘ held)) :
    Tiled (h.pushBucket c b) regions held := by
  have hb : b < BUCKETS := ht.bucket_lt (c, b) (held_mem _ (Multiset.mem_cons_self _ _))
  have hsame : h.mem.SameOutside (markFree h.mem c) c (bucketByteSize b) :=
    (sameOutside_markFree h.mem c).mono le_rfl (by have := ht.size_cons; omega)
  have hbucket : chunkBucket (markFree h.mem c) c = b := by
    rw [chunkBucket_markFree]
    exact ht.header_cons
  rw [pushBucket_eq hb ht.lt_of_held]
  exact (ht.write hsame hbucket).link (chunkFree_markFree h.mem c)

theorem pushBucket_sameOutside (ht : Tiled h regions ((c, b) ::ₘ held)) :
    h.mem.SameOutside (h.pushBucket c b).mem c (bucketByteSize b) := by
  have hsize := ht.size_cons
  rw [HeapManager.pushBucket]
  split
  · exact Mem.SameOutside.refl _ _ _
  · exact (sameOutside_markFree h.mem c).mono le_rfl (by omega)

@[simp] theorem pushBucket_pages (h : HeapManager) (c b : Nat) :
    (h.pushBucket c b).pages = h.pages := by
  rw [HeapManager.pushBucket]
  split <;> rfl

/-! ## Popping a chunk -/

theorem takeFirst (ht : Tiled h regions held) (hb : b < BUCKETS) {rest : List Nat}
    (hstack : h.firstChunk b = c :: rest) :
    Tiled { h with firstChunk := Function.update h.firstChunk b rest } regions
        ((c, b) ::ₘ held) ∧ chunkFree h.mem c = byte 'F' := by
  have hfree : h.freeChunks = (c, b) ::ₘ HeapManager.freeChunks
      { h with firstChunk := Function.update h.firstChunk b rest } := by
    have hpop := Buckets.content_pop BUCKETS (fun b c => ({(c, b)} : Multiset (Nat × Nat)))
      h.firstChunk hb hstack
    rw [HeapManager.freeChunks, HeapManager.freeChunks, ← hpop, add_comm, Multiset.singleton_add]
  have hsum : HeapManager.freeChunks
      { h with firstChunk := Function.update h.firstChunk b rest } + (c, b) ::ₘ held
        = h.freeChunks + held := by
    rw [hfree, Multiset.add_cons, Multiset.cons_add]
  refine ⟨⟨ht.regionsOk, ?_, ?_, ?_, ?_⟩, ?_⟩
  · rw [hsum]
    exact ht.tiling
  · rw [hsum]
    exact ht.bucket_lt
  · rw [hsum]
    exact ht.header
  · intro d hd
    refine ht.free d ?_
    rw [hfree]
    exact Multiset.mem_cons_of_mem hd
  · refine ht.free (c, b) ?_
    rw [hfree]
    exact Multiset.mem_cons_self _ _

/-- The bucket of the rest when a chunk of bucket `b + 1` is cut to bucket
`b`. -/
theorem split_sizes {b : Nat} (hb : b + 1 < BUCKETS) :
    ∃ b1, b1 < BUCKETS ∧ bucketByteSize (b + 1) = bucketByteSize b + bucketByteSize b1 ∧
      sub64 (bucketByteSize (b + 1)) (bucketByteSize b) = bucketByteSize b1 ∧
      bucketIndex (bucketByteSize b1) = b1 := by
  have hsum : ∀ b < BUCKETS - 1,
      bucketByteSize (b + 1) = bucketByteSize b + bucketByteSize (b - 1) := by decide
  have h := hsum b (by omega)
  have hmax := bucketByteSize_le_max hb
  refine ⟨b - 1, by omega, h, ?_, bucketIndex_bucketByteSize (by omega)⟩
  rw [sub64_of_le (by omega) (by omega), h]
  omega

/-- A chunk outside the free stacks is cut in two by what is stored into it: the
headers of the two parts. -/
theorem cutHeld (ht : Tiled h regions ((c, b) ::ₘ held)) {b0 b1 : Nat} (hb0 : b0 < BUCKETS)
    (hb1 : b1 < BUCKETS) (hsize : bucketByteSize b = bucketByteSize b0 + bucketByteSize b1)
    {m' : Mem} (hsame : h.mem.SameOutside m' c (bucketByteSize b)) (h₀ : chunkBucket m' c = b0)
    (h₁ : chunkBucket m' (c + bucketByteSize b0) = b1) :
    Tiled { h with mem := m' } regions
      ((c + bucketByteSize b0, b1) ::ₘ (c, b0) ::ₘ held) := by
  have hsum : h.freeChunks + (c + bucketByteSize b0, b1) ::ₘ (c, b0) ::ₘ held
      = (c, b0) ::ₘ (c + bucketByteSize b0, b1) ::ₘ (h.freeChunks + held) := by
    rw [Multiset.add_cons, Multiset.add_cons, Multiset.cons_swap]
  have hcases : ∀ d ∈ h.freeChunks + (c + bucketByteSize b0, b1) ::ₘ (c, b0) ::ₘ held,
      d = (c, b0) ∨ d = (c + bucketByteSize b0, b1) ∨ d ∈ h.freeChunks + held := by
    intro d hd
    rw [hsum, Multiset.mem_cons, Multiset.mem_cons] at hd
    exact hd
  refine ⟨ht.regionsOk, ?_, ?_, ?_, ?_⟩
  · have htiling : Tiling bucketByteSize regions (h.freeChunks + (c, b) ::ₘ held) := ht.tiling
    change Tiling bucketByteSize regions
      (h.freeChunks + (c + bucketByteSize b0, b1) ::ₘ (c, b0) ::ₘ held)
    rw [hsum]
    exact htiling.split (Multiset.add_cons _ _ _) hsize
  · intro d hd
    rcases hcases d hd with rfl | rfl | hd
    · exact hb0
    · exact hb1
    · exact ht.bucket_lt d (cons_mem hd)
  · intro d hd
    rcases hcases d hd with rfl | rfl | hd
    · exact h₀
    · exact h₁
    · exact (ht.sameHeader hsame hd).bucket.trans (ht.header d (cons_mem hd))
  · intro d hd
    have hd' : d ∈ h.freeChunks + held := Multiset.mem_add.mpr (Or.inl hd)
    exact (ht.sameHeader hsame hd').free.trans (ht.free d hd)

theorem splitHeld (ht : Tiled h regions ((c, b) ::ₘ held)) {b0 b1 : Nat} (hb0 : b0 < BUCKETS)
    (hb1 : b1 < BUCKETS) (hsize : bucketByteSize b = bucketByteSize b0 + bucketByteSize b1) :
    Tiled { h with mem := setBucket (setBucket h.mem (c + bucketByteSize b0) b1) c b0 } regions
      ((c + bucketByteSize b0, b1) ::ₘ (c, b0) ::ₘ held) := by
  have hs0 := le_bucketByteSize hb0
  have hs1 := le_bucketByteSize hb1
  have hmin : MIN_BUCKET_SIZE = 16 := rfl
  have hsame : h.mem.SameOutside
      (setBucket (setBucket h.mem (c + bucketByteSize b0) b1) c b0) c (bucketByteSize b) :=
    ((sameOutside_setBucket h.mem (c + bucketByteSize b0) b1).mono (by omega) (by omega)).trans
      ((sameOutside_setBucket _ c b0).mono (by omega) (by omega))
  refine ht.cutHeld hb0 hb1 hsize hsame (chunkBucket_setBucket _ c hb0) ?_
  have hne : chunkBucket (setBucket (setBucket h.mem (c + bucketByteSize b0) b1) c b0)
      (c + bucketByteSize b0)
      = chunkBucket (setBucket h.mem (c + bucketByteSize b0) b1) (c + bucketByteSize b0) := by
    refine (sameHeader_of_bytes fun x hlo hhi => ?_).bucket
    exact sameOutside_setBucket _ c b0 x (by omega)
  exact hne.trans (chunkBucket_setBucket _ _ hb1)

/-- What a successful pop does: one chunk of the wanted bucket leaves the free
stacks, and the chunks outside them keep their bytes. -/
structure Popped (h h' : HeapManager) (regions : List (Nat × Nat))
    (held : Multiset (Nat × Nat)) (c b : Nat) : Prop where
  bucket_lt : b < BUCKETS
  tiled : Tiled h' regions ((c, b) ::ₘ held)
  free : chunkFree h'.mem c = byte 'F'
  keeps : Keeps h.mem h'.mem held
  pages : h'.pages = h.pages

/-- The step of the recursion of `pop_bucket`: a chunk of the next bucket is
cut, and its rest is pushed. -/
theorem popped_of_split {h' : HeapManager} (hb : b < BUCKETS)
    (hpopped : Popped h h' regions held c (b + 1)) {b1 : Nat} (hb1 : b1 < BUCKETS)
    (hsize : bucketByteSize (b + 1) = bucketByteSize b + bucketByteSize b1) :
    Popped h (HeapManager.pushBucket
      { h' with mem := setBucket (setBucket h'.mem (c + bucketByteSize b) b1) c b }
      (c + bucketByteSize b) b1) regions held c b := by
  have hsplit := hpopped.tiled.splitHeld hb hb1 hsize
  have hs := le_bucketByteSize hb
  have hs1 := le_bucketByteSize hb1
  have hmin : MIN_BUCKET_SIZE = 16 := rfl
  have hpush := hsplit.pushBucket_sameOutside
  have hsame : h'.mem.SameOutside (HeapManager.pushBucket
      { h' with mem := setBucket (setBucket h'.mem (c + bucketByteSize b) b1) c b }
      (c + bucketByteSize b) b1).mem c (bucketByteSize (b + 1)) :=
    (((sameOutside_setBucket h'.mem (c + bucketByteSize b) b1).mono (by omega) (by omega)).trans
      ((sameOutside_setBucket _ c b).mono (by omega) (by omega))).trans
      (hpush.mono (by omega) (by omega))
  refine ⟨hb, hsplit.pushBucket, ?_, hpopped.keeps.trans (hpopped.tiled.keeps hsame), ?_⟩
  · have hc : chunkFree (HeapManager.pushBucket
        { h' with mem := setBucket (setBucket h'.mem (c + bucketByteSize b) b1) c b }
        (c + bucketByteSize b) b1).mem c
        = chunkFree (setBucket (setBucket h'.mem (c + bucketByteSize b) b1) c b) c :=
      hpush c (by omega)
    rw [hc, chunkFree_setBucket, ← hpopped.free]
    exact sameOutside_setBucket h'.mem (c + bucketByteSize b) b1 c (by omega)
  · rw [pushBucket_pages]
    exact hpopped.pages

theorem popBucketLoop {fuel : Nat} {h' : HeapManager} (ht : Tiled h regions held)
    (hpop : HeapManager.popBucketLoop fuel h b = (some c, h')) :
    Popped h h' regions held c b := by
  induction fuel generalizing b c h' with
  | zero => simp [HeapManager.popBucketLoop] at hpop
  | succ fuel ih =>
    rw [HeapManager.popBucketLoop] at hpop
    split at hpop
    · simp at hpop
    · rename_i hb
      have hb : b < BUCKETS := by omega
      cases hstack : Stack.pop (h.firstChunk b) with
      | some r =>
        obtain ⟨c', rest⟩ := r
        simp only [hstack, Prod.mk.injEq, Option.some.injEq] at hpop
        obtain ⟨rfl, rfl⟩ := hpop
        obtain ⟨hcons, -⟩ := Stack.pop_eq_some hstack
        obtain ⟨htake, hfree⟩ := ht.takeFirst hb hcons
        exact ⟨hb, htake, hfree, Keeps.refl _ _, rfl⟩
      | none =>
        simp only [hstack] at hpop
        cases hrec : HeapManager.popBucketLoop fuel h (b + 1) with
        | mk r h₁ =>
          cases r with
          | none => simp [hrec] at hpop
          | some c' =>
            have hpopped := ih hrec
            obtain ⟨b1, hb1, hsize, hsub, hindex⟩ := split_sizes hpopped.bucket_lt
            have hheader : chunkBucket h₁.mem c' = b + 1 := hpopped.tiled.header_cons
            have hmin := le_bucketByteSize hb1
            simp only [hrec, hheader, hsub, hindex, ge_iff_le, if_pos hmin, Prod.mk.injEq,
              Option.some.injEq] at hpop
            obtain ⟨rfl, rfl⟩ := hpop
            exact popped_of_split hb hpopped hb1 hsize

theorem mem_freeChunks (hb : b < BUCKETS) (hc : c ∈ h.firstChunk b) : (c, b) ∈ h.freeChunks :=
  Buckets.mem_content hb hc (Multiset.mem_singleton_self _)

theorem stack_ne_zero (ht : Tiled h regions held) (hb : b < BUCKETS) :
    ∀ c ∈ h.firstChunk b, c ≠ 0 := fun _ hc =>
  (ht.bounds (Multiset.mem_add.mpr (Or.inl (mem_freeChunks hb hc)))).1.ne'

theorem popBucketLoop_none {fuel : Nat} {h' : HeapManager} (ht : Tiled h regions held)
    (hfuel : BUCKETS - b < fuel) (hpop : HeapManager.popBucketLoop fuel h b = (none, h')) :
    h' = h ∧ ∀ i, b ≤ i → i < BUCKETS → h.firstChunk i = [] := by
  induction fuel generalizing b h' with
  | zero => omega
  | succ fuel ih =>
    rw [HeapManager.popBucketLoop] at hpop
    split at hpop
    · simp only [Prod.mk.injEq, true_and] at hpop
      exact ⟨hpop.symm, fun i h1 h2 => by omega⟩
    · rename_i hb
      cases hstack : Stack.pop (h.firstChunk b) with
      | some r => simp [hstack] at hpop
      | none =>
        have hnil := Stack.pop_eq_none (ht.stack_ne_zero (by omega)) hstack
        simp only [hstack] at hpop
        cases hrec : HeapManager.popBucketLoop fuel h (b + 1) with
        | mk r h₁ =>
          cases r with
          | none =>
            simp only [hrec, Prod.mk.injEq, true_and] at hpop
            obtain ⟨rfl, hempty⟩ := ih (by omega) hrec
            refine ⟨hpop.symm, fun i h1 h2 => ?_⟩
            rcases Nat.eq_or_lt_of_le h1 with rfl | hlt
            · exact hnil
            · exact hempty i hlt h2
          | some c' =>
            simp only [hrec] at hpop
            split at hpop <;> simp at hpop

/-! ## A new page -/

theorem carveHeld {a e : Nat} (ht : Tiled h ((a, e) :: regions) held) (hb : b < BUCKETS)
    (hok : RegionsOk ((a, e + bucketByteSize b) :: regions)) (hae : 16 ∣ e) :
    Tiled { h with mem := setBucket h.mem e b } ((a, e + bucketByteSize b) :: regions)
        ((e, b) ::ₘ held) ∧
      Keeps h.mem (setBucket h.mem e b) held := by
  have hsize := le_bucketByteSize hb
  have hmin : MIN_BUCKET_SIZE = 16 := rfl
  have hsum : h.freeChunks + (e, b) ::ₘ held = (e, b) ::ₘ (h.freeChunks + held) :=
    Multiset.add_cons _ _ _
  have htiling : Tiling bucketByteSize ((a, e + bucketByteSize b) :: regions)
      ((e, b) ::ₘ (h.freeChunks + held)) := ht.tiling.extend b
  have hlt : ∀ d ∈ (e, b) ::ₘ (h.freeChunks + held), d.2 < BUCKETS := by
    intro d hd
    rcases Multiset.mem_cons.mp hd with rfl | hd
    · exact hb
    · exact ht.bucket_lt d hd
  have hpos : ∀ d ∈ (e, b) ::ₘ (h.freeChunks + held), 0 < bucketByteSize d.2 := by
    intro d hd
    have := le_bucketByteSize (hlt d hd)
    omega
  have hnodup := (htiling.apart hpos hok.apart).1
  rw [Multiset.map_cons, Multiset.nodup_cons] at hnodup
  have hne : ∀ d ∈ h.freeChunks + held, d.1 ≠ e := by
    intro d hd heq
    exact hnodup.1 (Multiset.mem_map.mpr ⟨d, hd, heq⟩)
  have hsame : ∀ d ∈ h.freeChunks + held, SameHeader h.mem (setBucket h.mem e b) d.1 :=
    fun d hd => sameHeader_of_ne (sameOutside_setBucket h.mem e b) hae (ht.dvd hd) (hne d hd)
  have hnew : Tiled { h with mem := setBucket h.mem e b }
      ((a, e + bucketByteSize b) :: regions) ((e, b) ::ₘ held) := by
    refine ⟨hok, ?_, ?_, ?_, ?_⟩
    · change Tiling bucketByteSize _ (h.freeChunks + (e, b) ::ₘ held)
      rw [hsum]
      exact htiling
    · change ∀ d ∈ h.freeChunks + (e, b) ::ₘ held, d.2 < BUCKETS
      rw [hsum]
      exact hlt
    · change ∀ d ∈ h.freeChunks + (e, b) ::ₘ held, chunkBucket (setBucket h.mem e b) d.1 = d.2
      rw [hsum]
      intro d hd
      rcases Multiset.mem_cons.mp hd with rfl | hd
      · exact chunkBucket_setBucket h.mem _ hb
      · exact (hsame d hd).bucket.trans (ht.header d hd)
    · intro d hd
      exact (hsame d (Multiset.mem_add.mpr (Or.inl hd))).free.trans (ht.free d hd)
  refine ⟨hnew, fun d hd x hlo hhi => ?_⟩
  have hapart := hnew.cons_apart (held_mem held hd)
  exact sameOutside_setBucket h.mem e b x (by omega)

theorem carve {a e : Nat} (ht : Tiled h ((a, e) :: regions) held) (hb : b < BUCKETS)
    (hok : RegionsOk ((a, e + bucketByteSize b) :: regions)) (hae : 16 ∣ e) :
    Tiled (h.carve e b) ((a, e + bucketByteSize b) :: regions) held ∧
      Keeps h.mem (h.carve e b).mem held := by
  obtain ⟨hnew, hkeeps⟩ := ht.carveHeld hb hok hae
  exact ⟨hnew.pushBucket, hkeeps.trans (hnew.keeps hnew.pushBucket_sameOutside)⟩

theorem newPage_eq (h : HeapManager) (page : Nat) :
    h.newPage page = ((HeapManager.carve { h with pages := page :: h.pages } page 11).carve
      (page + 3728) 6).carve (page + 3728 + 336) 1 := by
  have h11 : HeapManager.fitBucket 4096 = 11 := by decide
  have h6 : HeapManager.fitBucket 368 = 6 := by decide
  have h1 : HeapManager.fitBucket 32 = 1 := by decide
  have hfuel : PAGESIZE / MIN_BUCKET_SIZE = 252 + 1 + 1 + 1 + 1 := by decide
  rw [HeapManager.newPage, hfuel, show PAGESIZE = 4096 from rfl]
  rw [HeapManager.newPageLoop, if_pos (by decide)]
  simp only [h11, show bucketByteSize 11 = 3728 from rfl, show 4096 - 3728 = 368 from rfl]
  rw [HeapManager.newPageLoop, if_pos (by decide)]
  simp only [h6, show bucketByteSize 6 = 336 from rfl, show 368 - 336 = 32 from rfl]
  rw [HeapManager.newPageLoop, if_pos (by decide)]
  simp only [h1, show bucketByteSize 1 = 32 from rfl, show 32 - 32 = 0 from rfl]
  rw [HeapManager.newPageLoop, if_neg (by decide)]

theorem regionsOk_shrink {a e e' : Nat} (hok : RegionsOk ((a, e') :: regions)) (hle : e ≤ e') :
    RegionsOk ((a, e) :: regions) := by
  obtain ⟨hhead, htail⟩ := List.pairwise_cons.mp hok.apart
  refine ⟨List.pairwise_cons.mpr ⟨fun r hr => ?_, htail⟩, fun r hr => ?_⟩
  · have := hhead r hr
    dsimp only at this ⊢
    omega
  · rcases List.mem_cons.mp hr with rfl | hr
    · have := hok.start (a, e') List.mem_cons_self
      dsimp only at this ⊢
      omega
    · exact hok.start r (List.mem_cons_of_mem _ hr)

theorem newPage {page : Nat} (ht : Tiled h regions held)
    (hok : RegionsOk ((page, page + PAGESIZE) :: regions)) :
    Tiled (h.newPage page) ((page, page + PAGESIZE) :: regions) held ∧
      Keeps h.mem (h.newPage page).mem held := by
  have hsize : PAGESIZE = 4096 := rfl
  have hdvd : 16 ∣ page := (hok.start _ List.mem_cons_self).2.1
  have h0 : Tiled { h with pages := page :: h.pages } ((page, page) :: regions) held :=
    ⟨regionsOk_shrink hok (by omega), by
      have hadd := ht.tiling.add_region (Tiles.nil page : Tiles bucketByteSize page page [])
      rwa [Multiset.coe_nil, zero_add] at hadd, ht.bucket_lt, ht.header, ht.free⟩
  obtain ⟨h1, k1⟩ := h0.carve (b := 11) (by decide)
    (regionsOk_shrink hok (by rw [show bucketByteSize 11 = 3728 from rfl]; omega)) hdvd
  rw [show bucketByteSize 11 = 3728 from rfl] at h1
  obtain ⟨h2, k2⟩ := h1.carve (b := 6) (by decide)
    (regionsOk_shrink hok (by rw [show bucketByteSize 6 = 336 from rfl]; omega)) (by omega)
  rw [show bucketByteSize 6 = 336 from rfl] at h2
  obtain ⟨h3, k3⟩ := h2.carve (b := 1) (by decide)
    (regionsOk_shrink hok (by rw [show bucketByteSize 1 = 32 from rfl]; omega)) (by omega)
  rw [newPage_eq]
  exact ⟨h3, (k1.trans k2).trans k3⟩

end Tiled

end Hostboot.HeapMgr
