import Mathlib
import Hostboot.Lib.Run
import Hostboot.HeapMgr.Coalesce

/-!
# The small heap and its clients

`Sys` is the small heap together with what its clients remember: the live
allocations, each as the pointer and the number of bytes asked for.  The
clients allocate, free, reallocate and write into the bytes they asked for;
the kernel gives pages to the heap and coalesces it.

`tiling_of_run` is the result.  After every run each page of the small heap is
tiled by chunks of bucket sizes.  A chunk is in the free stack of its bucket or
it is the chunk of one live allocation.  The bytes of an allocation lie between
the header and the validation byte of its chunk, and no two allocations
overlap.

The pages come from the page manager.  They are page-aligned, not null, below
4 GB, and never given out twice.
-/

namespace Hostboot.HeapMgr

open Hostboot.Lib List

/-- The small heap and the live allocations. -/
structure Sys where
  heap : HeapManager
  /-- The pointers handed out and not yet freed, with the bytes asked for. -/
  live : List (Nat × Nat)

/-- The start of a run, with any contents of the memory. -/
def Sys.init (mem : Mem) : Sys := ⟨⟨fun _ => [], mem, []⟩, []⟩

/-- A call of a client, or a write into an allocation.  `supply` are the pages
the page manager gives during the call. -/
inductive Op where
  | allocate (tid sz : Nat) (supply : List Nat)
  | free (ptr : Nat)
  | realloc (tid ptr sz : Nat) (supply : List Nat)
  | newPage (page : Nat)
  | coalesce
  | write (ptr offset : Nat) (v : UInt8)

/-- The rules the clients and the page manager keep. -/
def Op.Allowed (s : Sys) : Op → Prop
  | .allocate _ sz supply => sz ≤ MAX_SMALL_ALLOC_SIZE ∧ PagesOk (supply ++ s.heap.pages)
  | .free ptr => ∃ sz, (ptr, sz) ∈ s.live
  | .realloc _ ptr sz supply =>
    (∃ osz, (ptr, osz) ∈ s.live) ∧ sz ≤ MAX_SMALL_ALLOC_SIZE ∧ PagesOk (supply ++ s.heap.pages)
  | .newPage page => PagesOk (page :: s.heap.pages)
  | .coalesce => True
  | .write ptr offset _ => ∃ sz, (ptr, sz) ∈ s.live ∧ offset < sz

/-- Forget the allocation at a pointer. -/
def forget (live : List (Nat × Nat)) (ptr : Nat) : List (Nat × Nat) :=
  live.filter fun a => a.1 ≠ ptr

/-- One call, run to its end. -/
def exec (s : Sys) : Op → Except Fault Sys
  | .allocate tid sz supply => do
    let (ptr, heap) ← s.heap.allocate tid sz supply
    .ok ⟨heap, (ptr, sz) :: s.live⟩
  | .free ptr => do
    let heap ← s.heap.free ptr
    .ok ⟨heap, forget s.live ptr⟩
  | .realloc tid ptr sz supply => do
    let (newPtr, heap) ← s.heap.realloc tid ptr sz supply
    .ok ⟨heap, (newPtr, sz) :: forget s.live ptr⟩
  | .newPage page => .ok ⟨s.heap.newPage page, s.live⟩
  | .coalesce => do
    let heap ← s.heap.coalesce
    .ok ⟨heap, s.live⟩
  | .write ptr offset v =>
    .ok ⟨{ s.heap with mem := s.heap.mem.put (ptr + offset) v }, s.live⟩

/-- An allowed call that returns. -/
def Step (s : Sys) (op : Op) (s' : Sys) : Prop := op.Allowed s ∧ exec s op = .ok s'

/-- The chunk behind a pointer: the header stands eight bytes before the data
area. -/
def chunkOf (h : HeapManager) (ptr : Nat) : Nat × Nat := (ptr - 8, chunkBucket h.mem (ptr - 8))

/-- The chunks of a list of allocations. -/
def chunksOf (h : HeapManager) (live : List (Nat × Nat)) : Multiset (Nat × Nat) :=
  (live : Multiset (Nat × Nat)).map fun a => chunkOf h a.1

/-- The chunks in the free stacks and behind the live allocations. -/
def Sys.chunks (s : Sys) : Multiset (Nat × Nat) := s.heap.freeChunks + chunksOf s.heap s.live

/-- The heap promises of every live allocation. -/
def LivesOk (m : Mem) (live : List (Nat × Nat)) : Prop :=
  ∀ a ∈ live, 8 ≤ a.1 ∧ LiveOk m (a.1 - 8) (chunkBucket m (a.1 - 8)) a.2

/-- What holds between the heap and its clients. -/
structure Inv (s : Sys) : Prop where
  heap : HeapOk s.heap (chunksOf s.heap s.live)
  live : LivesOk s.heap.mem s.live

theorem inv_init (mem : Mem) : Inv (Sys.init mem) := by
  have hfree : (Sys.init mem).heap.freeChunks = 0 := freeChunks_eq_zero fun _ _ => rfl
  have hnone : (Sys.init mem).heap.freeChunks + chunksOf (Sys.init mem).heap (Sys.init mem).live
      = 0 := by
    rw [hfree, zero_add]
    rfl
  refine ⟨⟨⟨nodup_nil, by simp [Sys.init]⟩, ⟨⟨List.Pairwise.nil, by simp [Sys.init,
    pageRegions]⟩, ?_, ?_, ?_, ?_⟩⟩, by simp [LivesOk, Sys.init]⟩
  · rw [hnone]
    exact .nil
  · rw [hnone]
    simp
  · rw [hnone]
    simp
  · rw [hfree]
    simp

/-! ## The live allocations -/

section Live

variable {h h' : HeapManager} {live : List (Nat × Nat)} {held : Multiset (Nat × Nat)}
  {ptr sz : Nat}

theorem mem_chunksOf {a : Nat × Nat} (ha : a ∈ live) : chunkOf h a.1 ∈ chunksOf h live :=
  Multiset.mem_map.mpr ⟨a, Multiset.mem_coe.mpr ha, rfl⟩

theorem chunksOf_cons (h : HeapManager) (a : Nat × Nat) (live : List (Nat × Nat)) :
    chunksOf h (a :: live) = chunkOf h a.1 ::ₘ chunksOf h live := by
  rw [chunksOf, ← Multiset.cons_coe, Multiset.map_cons, chunksOf]

theorem chunkOf_congr (hkeeps : Keeps h.mem h'.mem held) (hmem : chunkOf h ptr ∈ held)
    (hsize : 16 ≤ bucketByteSize (chunkBucket h.mem (ptr - 8))) :
    chunkOf h' ptr = chunkOf h ptr := by
  have hsame : SameHeader h.mem h'.mem (ptr - 8) :=
    sameHeader_of_bytes fun x hlo hhi => hkeeps (chunkOf h ptr) hmem x hlo (by
      unfold chunkOf
      dsimp only
      omega)
  rw [chunkOf, chunkOf, hsame.bucket]

/-- Operations that keep the bytes of the live chunks keep what is known about
them. -/
theorem chunksOf_congr (hkeeps : Keeps h.mem h'.mem held) (hsub : chunksOf h live ⊆ held)
    (hsize : ∀ d ∈ chunksOf h live, 16 ≤ bucketByteSize d.2) :
    chunksOf h' live = chunksOf h live := by
  refine Multiset.map_congr rfl fun a ha => ?_
  have hmem := mem_chunksOf (h := h) (Multiset.mem_coe.mp ha)
  exact chunkOf_congr hkeeps (hsub hmem) (hsize _ hmem)

theorem LivesOk.keeps (hlive : LivesOk h.mem live) (hkeeps : Keeps h.mem h'.mem held)
    (hsub : chunksOf h live ⊆ held) (hsize : ∀ d ∈ chunksOf h live, 16 ≤ bucketByteSize d.2) :
    LivesOk h'.mem live := by
  intro a ha
  obtain ⟨h8, hok⟩ := hlive a ha
  have hmem := mem_chunksOf (h := h) ha
  have hsame := congrArg Prod.snd (chunkOf_congr hkeeps (hsub hmem) (hsize _ hmem))
  unfold chunkOf at hsame
  dsimp only at hsame
  refine ⟨h8, ?_⟩
  rw [hsame]
  exact hok.keeps hkeeps (hsub hmem)

theorem HeapOk.held_size (hok : HeapOk h held) : ∀ d ∈ held, 16 ≤ bucketByteSize d.2 :=
  fun _ hd => hok.tiled.size_le (Tiled.held_mem _ hd)

theorem nodup_chunksOf {regions : List (Nat × Nat)}
    (ht : Tiled h regions (chunksOf h live + held)) : ((chunksOf h live).map Prod.fst).Nodup := by
  have hnodup := ht.apart.1
  rw [Multiset.map_add, Multiset.map_add] at hnodup
  exact (Multiset.nodup_add.mp (Multiset.nodup_add.mp hnodup).2.1).1

theorem HeapOk.nodup_chunksOf (hok : HeapOk h (chunksOf h live)) :
    ((chunksOf h live).map Prod.fst).Nodup := by
  have ht := hok.tiled
  rw [← add_zero (chunksOf h live)] at ht
  exact HeapMgr.nodup_chunksOf ht

theorem nodup_live (hnodup : ((chunksOf h live).map Prod.fst).Nodup) :
    (live.map fun a => a.1 - 8).Nodup := by
  rw [chunksOf, Multiset.map_map, Multiset.map_coe, Multiset.coe_nodup] at hnodup
  exact hnodup

theorem forget_perm (hnodup : (live.map fun a => a.1 - 8).Nodup) (hmem : (ptr, sz) ∈ live) :
    live.Perm ((ptr, sz) :: forget live ptr) := by
  obtain ⟨l1, l2, rfl⟩ := append_of_mem hmem
  rw [map_append, map_cons, nodup_append, nodup_cons] at hnodup
  obtain ⟨-, ⟨hn2, -⟩, hn3⟩ := hnodup
  have hl1 : l1.filter (fun a => a.1 ≠ ptr) = l1 := by
    refine filter_eq_self.mpr fun a ha => ?_
    have hne := hn3 (a.1 - 8) (mem_map_of_mem ha) (ptr - 8) (by simp)
    simp only [ne_eq, decide_eq_true_eq]
    intro heq
    exact hne (by rw [heq])
  have hl2 : l2.filter (fun a => a.1 ≠ ptr) = l2 := by
    refine filter_eq_self.mpr fun a ha => ?_
    simp only [ne_eq, decide_eq_true_eq]
    intro heq
    exact hn2 (mem_map.mpr ⟨a, ha, by rw [heq]⟩)
  rw [forget, filter_append, filter_cons, hl1, hl2]
  simp

theorem chunksOf_forget (hnodup : ((chunksOf h live).map Prod.fst).Nodup)
    (hmem : (ptr, sz) ∈ live) :
    chunksOf h live = chunkOf h ptr ::ₘ chunksOf h (forget live ptr) := by
  have hperm : (live : Multiset (Nat × Nat)) = ((ptr, sz) :: forget live ptr : List (Nat × Nat)) :=
    Multiset.coe_eq_coe.mpr (forget_perm (nodup_live hnodup) hmem)
  rw [← chunksOf_cons h (ptr, sz), chunksOf, hperm, chunksOf]

theorem LivesOk.forget (hlive : LivesOk h.mem live) (ptr : Nat) :
    LivesOk h.mem (HeapMgr.forget live ptr) := fun a ha =>
  hlive a (mem_of_mem_filter ha)

end Live

/-! ## One lemma for each call -/

theorem inv_of_keeps {h h' : HeapManager} {live : List (Nat × Nat)} (hlive : LivesOk h.mem live)
    (hok : HeapOk h' (chunksOf h live)) (hkeeps : Keeps h.mem h'.mem (chunksOf h live)) :
    Inv ⟨h', live⟩ := by
  have hsub : chunksOf h live ⊆ chunksOf h live := fun d hd => hd
  refine ⟨?_, hlive.keeps hkeeps hsub hok.held_size⟩
  dsimp only
  rw [chunksOf_congr hkeeps hsub hok.held_size]
  exact hok

theorem inv_of_allocated {h h' : HeapManager} {live : List (Nat × Nat)} {ptr sz c b : Nat}
    (hlive : LivesOk h.mem live) (hall : Allocated h h' (chunksOf h live) ptr sz c b) :
    Inv ⟨h', (ptr, sz) :: live⟩ := by
  have hsub : chunksOf h live ⊆ chunksOf h live := fun d hd => hd
  have hsize : ∀ d ∈ chunksOf h live, 16 ≤ bucketByteSize d.2 :=
    fun d hd => hall.heap.held_size d (Multiset.mem_cons_of_mem hd)
  have hheader : chunkBucket h'.mem c = b := hall.heap.tiled.header_cons
  have hptr : ptr - 8 = c := by
    rw [hall.ptr]
    omega
  refine ⟨?_, ?_⟩
  · dsimp only
    rw [chunksOf_cons, chunksOf_congr hall.keeps hsub hsize, chunkOf, hptr, hheader]
    exact hall.heap
  · intro a ha
    rcases mem_cons.mp ha with rfl | ha
    · refine ⟨by have := hall.ptr; dsimp only; omega, ?_⟩
      dsimp only
      rw [hptr, hheader]
      exact hall.live
    · exact hlive.keeps hall.keeps hsub hsize a ha

variable {s s' : Sys}

theorem Inv.forget (hinv : Inv s) {ptr sz : Nat} (hmem : (ptr, sz) ∈ s.live) :
    8 ≤ ptr ∧
      HeapOk s.heap ((ptr - 8, chunkBucket s.heap.mem (ptr - 8)) ::ₘ
        chunksOf s.heap (HeapMgr.forget s.live ptr)) ∧
      LiveOk s.heap.mem (ptr - 8) (chunkBucket s.heap.mem (ptr - 8)) sz ∧
      LivesOk s.heap.mem (HeapMgr.forget s.live ptr) := by
  obtain ⟨h8, hok⟩ := hinv.live (ptr, sz) hmem
  refine ⟨h8, ?_, hok, hinv.live.forget ptr⟩
  have hheap := hinv.heap
  rw [chunksOf_forget hinv.heap.nodup_chunksOf hmem, chunkOf] at hheap
  exact hheap

theorem inv_allocate (hinv : Inv s) {tid sz : Nat} {supply : List Nat}
    (hallowed : (Op.allocate tid sz supply).Allowed s)
    (hexec : exec s (.allocate tid sz supply) = .ok s') : Inv s' := by
  cases halloc : s.heap.allocate tid sz supply with
  | error e => simp [exec, halloc, Bind.bind, Except.bind] at hexec
  | ok r =>
    obtain ⟨ptr, h'⟩ := r
    obtain ⟨c, b, hspec⟩ := allocate_spec hinv.heap hallowed.2 hallowed.1 halloc
    simp only [exec, halloc, Bind.bind, Except.bind, Except.ok.injEq] at hexec
    subst hexec
    exact inv_of_allocated hinv.live hspec

theorem inv_free (hinv : Inv s) {ptr : Nat} (hallowed : (Op.free ptr).Allowed s)
    (hexec : exec s (.free ptr) = .ok s') : Inv s' := by
  obtain ⟨sz, hmem⟩ := hallowed
  obtain ⟨h8, hheap, hlive, hlives⟩ := hinv.forget hmem
  have hfree := free_eq hheap hlive
  obtain ⟨hok, hkeeps⟩ := free_spec hheap
  rw [Nat.sub_add_cancel h8] at hfree
  simp only [exec, hfree, Bind.bind, Except.bind, Except.ok.injEq] at hexec
  subst hexec
  exact inv_of_keeps hlives hok hkeeps

theorem inv_realloc (hinv : Inv s) {tid ptr sz : Nat} {supply : List Nat}
    (hallowed : (Op.realloc tid ptr sz supply).Allowed s)
    (hexec : exec s (.realloc tid ptr sz supply) = .ok s') : Inv s' := by
  obtain ⟨⟨osz, hmem⟩, hsz, hpages⟩ := hallowed
  obtain ⟨h8, hheap, hlive, hlives⟩ := hinv.forget hmem
  cases hre : s.heap.realloc tid ptr sz supply with
  | error e => simp [exec, hre, Bind.bind, Except.bind] at hexec
  | ok r =>
    obtain ⟨newPtr, h'⟩ := r
    rw [← Nat.sub_add_cancel h8] at hre
    obtain ⟨c, b, hspec⟩ := realloc_spec hheap hlive hpages hsz hre
    rw [Nat.sub_add_cancel h8] at hre
    simp only [exec, hre, Bind.bind, Except.bind, Except.ok.injEq] at hexec
    subst hexec
    exact inv_of_allocated hlives hspec

theorem inv_newPage (hinv : Inv s) {page : Nat} (hallowed : (Op.newPage page).Allowed s)
    (hexec : exec s (.newPage page) = .ok s') :
    Inv s' := by
  obtain ⟨hok, hkeeps⟩ := hinv.heap.newPage hallowed
  simp only [exec, Except.ok.injEq] at hexec
  subst hexec
  exact inv_of_keeps hinv.live hok hkeeps

theorem Inv.not_free (hinv : Inv s) :
    ∀ d ∈ chunksOf s.heap s.live, chunkFree s.heap.mem d.1 ≠ byte 'F' := by
  intro d hd
  obtain ⟨a, ha, rfl⟩ := Multiset.mem_map.mp hd
  obtain ⟨-, hok⟩ := hinv.live a (Multiset.mem_coe.mp ha)
  have hA : byte 'A' ≠ byte 'F' := by decide
  rw [chunkOf]
  dsimp only
  rw [hok.free]
  exact hA

theorem inv_coalesce (hinv : Inv s) (hexec : exec s .coalesce = .ok s') :
    Inv s' := by
  obtain ⟨h', hco, hok, hkeeps, -⟩ := coalesce_spec hinv.heap hinv.not_free
  simp only [exec, hco, Bind.bind, Except.bind, Except.ok.injEq] at hexec
  subst hexec
  exact inv_of_keeps hinv.live hok hkeeps

theorem inv_write (hinv : Inv s) {ptr offset : Nat} {v : UInt8}
    (hallowed : (Op.write ptr offset v).Allowed s) (hexec : exec s (.write ptr offset v) = .ok s') :
    Inv s' := by
  obtain ⟨sz, hmem, hlt⟩ := hallowed
  obtain ⟨h8, hheap, hlive, hlives⟩ := hinv.forget hmem
  have hput : s.heap.mem.SameOutside (s.heap.mem.put (ptr + offset) v) (ptr - 8 + 8) sz :=
    (Mem.SameOutside.put _ _ v).mono (by omega) (by omega)
  obtain ⟨hok, hlive', hkeeps⟩ := hheap.writeData hlive le_rfl hput
  simp only [exec, Except.ok.injEq] at hexec
  subst hexec
  have hall : Allocated s.heap { s.heap with mem := s.heap.mem.put (ptr + offset) v }
      (chunksOf s.heap (forget s.live ptr)) ptr sz (ptr - 8)
      (chunkBucket s.heap.mem (ptr - 8)) :=
    ⟨by omega, hok, hlive', hkeeps⟩
  have hinv' := inv_of_allocated hlives hall
  have hperm := forget_perm (nodup_live hinv.heap.nodup_chunksOf) hmem
  have hchunks : ∀ h, chunksOf h s.live = chunksOf h ((ptr, sz) :: forget s.live ptr) := by
    intro h
    rw [chunksOf, Multiset.coe_eq_coe.mpr hperm, chunksOf]
  refine ⟨?_, fun a ha => hinv'.live a (hperm.mem_iff.mp ha)⟩
  dsimp only
  rw [hchunks]
  exact hinv'.heap

theorem inv_step {op : Op} (hinv : Inv s) (hstep : Step s op s') : Inv s' := by
  obtain ⟨hallowed, hexec⟩ := hstep
  cases op with
  | allocate => exact inv_allocate hinv hallowed hexec
  | free => exact inv_free hinv hallowed hexec
  | realloc => exact inv_realloc hinv hallowed hexec
  | newPage => exact inv_newPage hinv hallowed hexec
  | coalesce => exact inv_coalesce hinv hexec
  | write => exact inv_write hinv hallowed hexec

/-! ## Every run -/

theorem inv_of_run {mem : Mem} {ops : List Op} (hrun : Run Step (Sys.init mem) ops s) :
    Inv s :=
  hrun.invariant (inv_init mem) fun _ _ _ => inv_step

/-- The page manager has a page for the call if it asks for one. -/
def Op.Supplied : Op → Prop
  | .allocate _ _ supply => supply ≠ []
  | .realloc _ _ _ supply => supply ≠ []
  | _ => True

theorem exec_returns (hinv : Inv s) {op : Op} (hallowed : op.Allowed s) (hsupplied : op.Supplied) :
    ∃ s', exec s op = .ok s' := by
  cases op with
  | allocate tid sz supply =>
    obtain ⟨page, rest, rfl⟩ := exists_cons_of_ne_nil hsupplied
    obtain ⟨r, hr⟩ := allocate_returns tid hinv.heap hallowed.2 hallowed.1
    refine ⟨⟨r.2, (r.1, sz) :: s.live⟩, ?_⟩
    simp only [exec, hr, Bind.bind, Except.bind]
  | free ptr =>
    obtain ⟨sz, hmem⟩ := hallowed
    obtain ⟨h8, hheap, hlive, -⟩ := hinv.forget hmem
    have hfree := free_eq hheap hlive
    rw [Nat.sub_add_cancel h8] at hfree
    refine ⟨⟨s.heap.pushBucket (ptr - 8) (chunkBucket s.heap.mem (ptr - 8)),
      forget s.live ptr⟩, ?_⟩
    simp only [exec, hfree, Bind.bind, Except.bind]
  | realloc tid ptr sz supply =>
    obtain ⟨⟨osz, hmem⟩, hsz, hpages⟩ := hallowed
    obtain ⟨h8, hheap, hlive, -⟩ := hinv.forget hmem
    obtain ⟨page, rest, rfl⟩ := exists_cons_of_ne_nil hsupplied
    obtain ⟨r, hr⟩ := realloc_returns tid hheap hlive hpages hsz
    rw [Nat.sub_add_cancel h8] at hr
    refine ⟨⟨r.2, (r.1, sz) :: forget s.live ptr⟩, ?_⟩
    simp only [exec, hr, Bind.bind, Except.bind]
  | newPage page => exact ⟨_, rfl⟩
  | coalesce =>
    obtain ⟨h', hco, -⟩ := coalesce_spec hinv.heap hinv.not_free
    refine ⟨⟨h', s.live⟩, ?_⟩
    simp only [exec, hco, Bind.bind, Except.bind]
  | write ptr offset v => exact ⟨_, rfl⟩

theorem apart_of_tiled {h : HeapManager} {live : List (Nat × Nat)} {held : Multiset (Nat × Nat)}
    {regions : List (Nat × Nat)} (ht : Tiled h regions (chunksOf h live + held))
    (hlive : LivesOk h.mem live) :
    live.Pairwise fun a a' => a.1 + a.2 ≤ a'.1 ∨ a'.1 + a'.2 ≤ a.1 := by
  have hnodup := nodup_live (nodup_chunksOf ht)
  rw [List.Nodup, pairwise_map] at hnodup
  refine (List.Pairwise.and_mem.mp hnodup).imp ?_
  rintro a a' ⟨ha, ha', hne⟩
  obtain ⟨h1, h2⟩ := hlive a ha
  obtain ⟨h3, h4⟩ := hlive a' ha'
  have hmem : ∀ a ∈ live, chunkOf h a.1 ∈ h.freeChunks + (chunksOf h live + held) := fun a ha =>
    Tiled.held_mem _ (Multiset.mem_add.mpr (Or.inl (mem_chunksOf ha)))
  have hapart := ht.apart.2 _ (hmem a ha) _ (hmem a' ha') hne
  have h5 := h2.fits
  have h6 := h4.fits
  have h9 : CHUNK_HEADER_PLUS_RESERVED = 9 := rfl
  unfold chunkOf at hapart
  dsimp only at hapart
  omega

theorem Inv.disjoint (hinv : Inv s) :
    s.live.Pairwise fun a a' => a.1 + a.2 ≤ a'.1 ∨ a'.1 + a'.2 ≤ a.1 := by
  have ht := hinv.heap.tiled
  rw [← add_zero (chunksOf s.heap s.live)] at ht
  exact apart_of_tiled ht hinv.live

/-- After every run the chunks in the free stacks and behind the live
allocations tile the pages of the small heap, each with the size of its
bucket, no chunk twice; the bytes of each allocation lie between the header
and the validation byte of its chunk; no two allocations overlap; and every
call a client may make returns. -/
theorem tiling_of_run {mem : Mem} {ops : List Op} {s : Sys}
    (hrun : Run Step (Sys.init mem) ops s) :
    Tiling bucketByteSize (pageRegions s.heap.pages) s.chunks ∧
      (s.chunks.map Prod.fst).Nodup ∧
      (∀ d ∈ s.chunks, d.2 < BUCKETS ∧ chunkBucket s.heap.mem d.1 = d.2) ∧
      (∀ a ∈ s.live, (chunkOf s.heap a.1).1 + 8 = a.1 ∧
        a.1 + a.2 < (chunkOf s.heap a.1).1 + bucketByteSize (chunkOf s.heap a.1).2) ∧
      (s.live.Pairwise fun a a' => a.1 + a.2 ≤ a'.1 ∨ a'.1 + a'.2 ≤ a.1) ∧
      ∀ op : Op, op.Allowed s → op.Supplied → ∃ s', exec s op = .ok s' := by
  have hinv := inv_of_run hrun
  refine ⟨hinv.heap.tiled.tiling, hinv.heap.tiled.apart.1, fun d hd => ?_, fun a ha => ?_,
    hinv.disjoint, fun op => exec_returns hinv⟩
  · exact ⟨hinv.heap.tiled.bucket_lt d hd, hinv.heap.tiled.header d hd⟩
  · obtain ⟨h8, hok⟩ := hinv.live a ha
    have hfits := hok.fits
    have h9 : CHUNK_HEADER_PLUS_RESERVED = 9 := rfl
    unfold chunkOf
    dsimp only
    omega

/-- A page is added, ten bytes are allocated, and the heap is coalesced. -/
theorem tiling_of_run_ten_bytes :
    ∃ s, Run Step (Sys.init fun _ => 0)
        [.newPage 4096, .allocate 1 10 [8192], .coalesce] s ∧ s.live.length = 1 ∧
      Tiling bucketByteSize (pageRegions s.heap.pages) s.chunks := by
  have hpages : PagesOk [8192, 4096] := ⟨by decide, by decide⟩
  have h1 : Run Step (Sys.init fun _ => 0) [.newPage 4096]
      ⟨(Sys.init fun _ => 0).heap.newPage 4096, []⟩ := .snoc .nil ⟨hpages.tail, rfl⟩
  have hallowed : (Op.allocate 1 10 [8192]).Allowed
      ⟨(Sys.init fun _ => 0).heap.newPage 4096, []⟩ := by
    refine ⟨by decide, ?_⟩
    rw [newPage_pages]
    exact hpages
  obtain ⟨r, hr⟩ := allocate_returns 1 (inv_of_run h1).heap hallowed.2 hallowed.1
  have hexec : exec ⟨(Sys.init fun _ => 0).heap.newPage 4096, []⟩ (.allocate 1 10 [8192])
      = .ok ⟨r.2, [(r.1, 10)]⟩ := by
    simp only [exec, hr, Bind.bind, Except.bind]
  have h2 := h1.snoc ⟨hallowed, hexec⟩
  obtain ⟨h', hco, -⟩ := coalesce_spec (inv_of_run h2).heap (inv_of_run h2).not_free
  have hexec' : exec ⟨r.2, [(r.1, 10)]⟩ .coalesce = .ok ⟨h', [(r.1, 10)]⟩ := by
    simp only [exec, hco, Bind.bind, Except.bind]
  have hstep : Step ⟨r.2, [(r.1, 10)]⟩ .coalesce ⟨h', [(r.1, 10)]⟩ := ⟨trivial, hexec'⟩
  have h3 := h2.snoc hstep
  exact ⟨_, h3, rfl, (tiling_of_run h3).1⟩

end Hostboot.HeapMgr
