import Hostboot.Lib.Bytes
import Hostboot.Util.Containers
import Hostboot.Util.Machine

/-!
# The small heap

The small heap of `HeapManager` (`src/kernel/heapmgr.C`) is a Fibonacci buddy
system.  A page of 4 KB is cut into chunks of bucket sizes; bucket `i + 2` is
as large as buckets `i + 1` and `i` together.  Each chunk starts with a header
of eight bytes, and the last byte of an allocated chunk holds `'V'`.

The memory is a memory of bytes, and the fields of `chunk_t` are read and
written at their offsets.  The link `next` is not a field here: a free stack
and the chain of `_coalesce` are lists of chunk addresses.  Fencing
(`CONFIG_MALLOC_FENCING`, off by default), the large heap and the statistics
are left out.  A function that can stop answers an `Except`.
-/

namespace Hostboot.HeapMgr

open Hostboot.Lib Hostboot.Util

/-- `HeapManager::BUCKETS`. -/
def BUCKETS : Nat := 12

/-- `HeapManager::MIN_BUCKET_SIZE`. -/
def MIN_BUCKET_SIZE : Nat := 16

/-- `HeapManager::FIB_START_INCR`. -/
def FIB_START_INCR : Nat := 16

/-- `HeapManager::CHUNK_HEADER_PLUS_RESERVED`: eight bytes of header and the
validation byte. -/
def CHUNK_HEADER_PLUS_RESERVED : Nat := 9

/-- The constants `BUCKET_SIZE0`, `BUCKET_SIZE1`, … of `HeapManager`. -/
def BUCKET_SIZE : Nat → Nat
  | 0 => MIN_BUCKET_SIZE
  | 1 => MIN_BUCKET_SIZE + FIB_START_INCR
  | n + 2 => BUCKET_SIZE (n + 1) + BUCKET_SIZE n

/-- `HeapManager::cv_chunk_size`. -/
def cvChunkSize : List Nat := (List.range BUCKETS).map BUCKET_SIZE

/-- `HeapManager::MAX_SMALL_ALLOC_SIZE`. -/
def MAX_SMALL_ALLOC_SIZE : Nat := BUCKET_SIZE 11 - CHUNK_HEADER_PLUS_RESERVED

/-- `VMM_VADDR_MALLOC`: where huge allocations start, at 16 GB. -/
def VMM_VADDR_MALLOC : Nat := 16 * 2 ^ 30

/-- `VMM_MALLOC_SIZE`: the room for huge allocations, 1 GB. -/
def VMM_MALLOC_SIZE : Nat := 2 ^ 30

/-- `HeapManager::bucketByteSize`.  No caller asks for a bucket above the
table. -/
def bucketByteSize (bucketIndex : Nat) : Nat := cvChunkSize.getD bucketIndex 0

/-- The value of a character constant. -/
def byte (c : Char) : UInt8 := UInt8.ofNat c.toNat

/-- Where the code stops. -/
inductive Fault where
  /-- `crit_assert` or `kassert`. -/
  | assertion
  /-- `task_crash` after a damaged validation byte. -/
  | crash
  /-- The page manager has no page left. -/
  | outOfMemory
  /-- The request belongs to the large heap. -/
  | largeHeap
  /-- A loop that did not finish. -/
  | diverges
  deriving DecidableEq, Repr

/-! ## The size of a bucket and the bucket of a size -/

/-- A read of the table at a signed index.  Just below the table stands some
other word, `outside`. -/
def chunkSizeAt (outside : Nat) (i : Int) : Nat :=
  if 0 ≤ i then bucketByteSize i.toNat else outside

/-- The binary search of `bucketIndex`. -/
def bucketIndexLoop (outside sz : Nat) : Nat → Int → Int → Nat → Nat
  | 0, _, _, bucket => bucket
  | fuel + 1, lowIdx, highIdx, bucket =>
    if lowIdx ≤ highIdx then
      let bucket := ((lowIdx + highIdx) / 2).toNat
      if sz > bucketByteSize bucket then
        bucketIndexLoop outside sz fuel (bucket + 1) highIdx bucket
      else
        let highIdx := (bucket : Int) - 1
        if sz > chunkSizeAt outside highIdx then bucket
        else bucketIndexLoop outside sz fuel lowIdx highIdx bucket
    else bucket

/-- `HeapManager::bucketIndex`, with the word that stands just below the
table.  The search range shrinks in every round. -/
def bucketIndexAt (outside sz : Nat) : Nat :=
  if sz > bucketByteSize (BUCKETS - 1) then BUCKETS
  else bucketIndexLoop outside sz BUCKETS 0 (BUCKETS - 1) 0

/-- `HeapManager::bucketIndex`.  The word below the table does not matter
(`bucketIndexAt_eq`). -/
def bucketIndex (sz : Nat) : Nat := bucketIndexAt 0 sz

/-! ## The header of a chunk -/

/-- `chunk_t::free`: `'F'` for a free chunk, `'A'` for an allocated one. -/
def chunkFree (m : Mem) (c : Nat) : UInt8 := m c

/-- `chunk_t::coalesce`: `'C'` while the chunk is being coalesced. -/
def chunkCoalesce (m : Mem) (c : Nat) : UInt8 := m (c + 1)

/-- `chunk_t::bucket`. -/
def chunkBucket (m : Mem) (c : Nat) : Nat := m.get16 (c + 6)

def setFree (m : Mem) (c : Nat) (v : UInt8) : Mem := m.put c v

def setCoalesce (m : Mem) (c : Nat) (v : UInt8) : Mem := m.put (c + 1) v

def setSize (m : Mem) (c v : Nat) : Mem := m.put16 (c + 2) v

def setAllocator (m : Mem) (c v : Nat) : Mem := m.put16 (c + 4) v

def setBucket (m : Mem) (c v : Nat) : Mem := m.put16 (c + 6) v

/-- The state of the small heap. -/
structure HeapManager where
  /-- The free stacks. -/
  firstChunk : Nat → List Nat
  /-- The memory of the machine. -/
  mem : Mem
  /-- The pages `newPage` took, newest first. -/
  pages : List Nat

namespace HeapManager

/-- `HeapManager::push_bucket`. -/
def pushBucket (h : HeapManager) (chunk bucket : Nat) : HeapManager :=
  if bucket ≥ BUCKETS then h
  else
    { h with
      firstChunk := Function.update h.firstChunk bucket (Stack.push (h.firstChunk bucket) chunk)
      mem := setAllocator (setSize (setFree h.mem chunk (byte 'F')) chunk 0) chunk 0 }

/-- The recursion of `pop_bucket`.  The bucket number grows at each call and
stops at `BUCKETS`. -/
def popBucketLoop : Nat → HeapManager → Nat → Option Nat × HeapManager
  | 0, h, _ => (none, h)
  | fuel + 1, h, bucket =>
    if bucket ≥ BUCKETS then (none, h)
    else
      match Stack.pop (h.firstChunk bucket) with
      | some (c, rest) =>
        (some c, { h with firstChunk := Function.update h.firstChunk bucket rest })
      | none =>
        -- Split an item from the next sized bucket.
        match popBucketLoop fuel h (bucket + 1) with
        | (none, h) => (none, h)
        | (some c, h) =>
          let cSize := bucketByteSize bucket
          let c1Size := sub64 (bucketByteSize (chunkBucket h.mem c)) cSize
          let c1Bucket := bucketIndex c1Size
          let c1 := c + cSize
          let h := { h with mem := setBucket (setBucket h.mem c1 c1Bucket) c bucket }
          if c1Size ≥ MIN_BUCKET_SIZE then (some c, h.pushBucket c1 c1Bucket) else (some c, h)

/-- `HeapManager::pop_bucket`. -/
def popBucket (h : HeapManager) (bucket : Nat) : Option Nat × HeapManager :=
  popBucketLoop (BUCKETS + 1) h bucket

/-- The bucket `newPage` cuts from the rest of a page. -/
def fitBucket (remaining : Nat) : Nat :=
  let bucket := bucketIndex remaining
  if bucket = BUCKETS ∨ bucketByteSize bucket > remaining then bucket - 1 else bucket

/-- One round of the loop of `newPage`. -/
def carve (h : HeapManager) (c bucket : Nat) : HeapManager :=
  { h with mem := setBucket h.mem c bucket }.pushBucket c bucket

/-- The loop of `newPage`.  Each round takes at least the smallest bucket. -/
def newPageLoop : Nat → HeapManager → Nat → Nat → HeapManager
  | 0, h, _, _ => h
  | fuel + 1, h, c, remaining =>
    if remaining ≥ MIN_BUCKET_SIZE then
      let bucket := fitBucket remaining
      newPageLoop fuel (h.carve c bucket) (c + bucketByteSize bucket)
        (remaining - bucketByteSize bucket)
    else h

/-- `HeapManager::newPage` with the page the page manager gave. -/
def newPage (h : HeapManager) (page : Nat) : HeapManager :=
  newPageLoop (PAGESIZE / MIN_BUCKET_SIZE) { h with pages := page :: h.pages } page PAGESIZE

/-- `HeapManager::_allocate` for the task `tid`.  `supply` are the pages the
page manager gives when it is asked.  The answer is the address of the data
area. -/
def allocate (h : HeapManager) (tid sz : Nat) (supply : List Nat) :
    Except Fault (Nat × HeapManager) :=
  match h.popBucket (bucketIndex (sz + CHUNK_HEADER_PLUS_RESERVED)) with
  | (none, h) =>
    match supply with
    | [] => .error .outOfMemory
    | page :: supply => allocate (h.newPage page) tid sz supply
  | (some chunk, h) =>
    if chunkFree h.mem chunk = byte 'F' then
      let size := bucketByteSize (chunkBucket h.mem chunk)
      let mem := h.mem.put (chunk + size - 1) (byte 'V')
      let mem := setAllocator (setSize (setFree mem chunk (byte 'A')) chunk sz) chunk tid
      .ok (chunk + 8, { h with mem := mem })
    else .error .assertion

/-- `HeapManager::_free`.  `_freeHuge` takes a pointer into the room for huge
allocations, and `_freeBig` one at a page boundary. -/
def free (h : HeapManager) (ptr : Nat) : Except Fault HeapManager :=
  if ptr = 0 then .ok h
  else if VMM_VADDR_MALLOC ≤ ptr ∧ ptr < VMM_VADDR_MALLOC + VMM_MALLOC_SIZE then
    .error .largeHeap
  else if alignPage ptr = ptr then .error .largeHeap
  else
    let chunk := ptr - 8
    if chunkFree h.mem chunk = byte 'F' then .error .assertion
    else
      let size := bucketByteSize (chunkBucket h.mem chunk)
      if h.mem (chunk + size - 1) ≠ byte 'V' then .error .crash
      else .ok (h.pushBucket chunk (chunkBucket h.mem chunk))

/-- `HeapManager::_realloc`.  `_reallocHuge` and `_reallocBig` take the
pointers of the large heap.  A request that fits the chunk leaves it as it
is. -/
def realloc (h : HeapManager) (tid ptr sz : Nat) (supply : List Nat) :
    Except Fault (Nat × HeapManager) :=
  if VMM_VADDR_MALLOC ≤ ptr then .error .largeHeap
  else if alignPage ptr = ptr then .error .largeHeap
  else
    let chunk := ptr - 8
    let asize := sub64 (bucketByteSize (chunkBucket h.mem chunk)) CHUNK_HEADER_PLUS_RESERVED
    if asize < sz then
      if sz > MAX_SMALL_ALLOC_SIZE then .error .largeHeap
      else do
        let (newPtr, h) ← h.allocate tid sz supply
        let h ← { h with mem := h.mem.copy newPtr ptr asize }.free ptr
        .ok (newPtr, h)
    else .ok (ptr, h)

/-! ## Coalescing -/

/-- The inner loop of the first part of `_coalesce`: empty one free stack into
the chain. -/
def gatherStack : List Nat → Mem → List Nat → Except Fault (List Nat × Mem × List Nat)
  | [], m, chain => .ok ([], m, chain)
  | c :: rest, m, chain =>
    if c = 0 then .ok (c :: rest, m, chain)
    else if chunkFree m c = byte 'F' then
      gatherStack rest (setCoalesce m c (byte 'C')) (c :: chain)
    else .error .assertion

/-- One round of the first loop of `_coalesce`. -/
def gatherBucket (hc : HeapManager × List Nat) (bucket : Nat) :
    Except Fault (HeapManager × List Nat) := do
  let (rest, m, chain) ← gatherStack (hc.1.firstChunk bucket) hc.1.mem hc.2
  .ok ({ hc.1 with firstChunk := Function.update hc.1.firstChunk bucket rest, mem := m }, chain)

/-- Whether a chunk of the chain still stands for itself. -/
def isActive (m : Mem) (c : Nat) : Bool :=
  chunkFree m c = byte 'F' && chunkCoalesce m c = byte 'C'

/-- The body of the innermost loop of `_coalesce`: merge a chunk with the
chunk above it, or nothing when that is not possible. -/
def mergeBuddy (m : Mem) (chunk : Nat) : Option Mem :=
  if ¬ isActive m chunk then none
  else
    let size := bucketByteSize (chunkBucket m chunk)
    let buddy := chunk + size
    if alignPageDown buddy ≠ alignPageDown chunk then none
    else if ¬ isActive m buddy then none
    else
      let newSize := size + bucketByteSize (chunkBucket m buddy)
      let newBucket := bucketIndex newSize
      if newBucket ≥ BUCKETS ∨ bucketByteSize newBucket ≠ newSize then none
      else some (setBucket (setCoalesce (setFree m buddy 0) buddy 0) chunk newBucket)

/-- The walk stays at a chunk as long as it merges.  The answer tells whether
it did.  The bucket of the chunk grows with each merge. -/
def mergeChunk : Nat → Mem → Nat → Option (Mem × Bool)
  | 0, _, _ => none
  | fuel + 1, m, chunk =>
    match mergeBuddy m chunk with
    | none => some (m, false)
    | some m' => (mergeChunk fuel m' chunk).map fun r => (r.1, true)

/-- One walk along the chain. -/
def mergeChain (m : Mem) : List Nat → Option (Mem × Bool)
  | [] => some (m, false)
  | chunk :: rest => do
    let (m, merged) ← mergeChunk (BUCKETS + 1) m chunk
    let (m, merged') ← mergeChain m rest
    some (m, merged || merged')

/-- The walk that takes the merged chunks out of the chain, which it turns
around. -/
def liveChain (m : Mem) (chain : List Nat) : List Nat :=
  (chain.filter (isActive m)).reverse

/-- The outer loop of the second part of `_coalesce`.  Each round but the last
makes the chain shorter. -/
def mergeLoop : Nat → Mem → List Nat → Option (Mem × List Nat)
  | 0, _, _ => none
  | fuel + 1, m, chain => do
    let (m, merged) ← mergeChain m chain
    if merged then mergeLoop fuel m (liveChain m chain) else some (m, liveChain m chain)

/-- The last loop of `_coalesce`: the chain goes back to the free stacks. -/
def restore (h : HeapManager) (chunk : Nat) : HeapManager :=
  let h := { h with mem := setCoalesce h.mem chunk 0 }
  h.pushBucket chunk (chunkBucket h.mem chunk)

/-- `HeapManager::_coalesce`. -/
def coalesce (h : HeapManager) : Except Fault HeapManager := do
  let (h, chain) ← (List.range BUCKETS).foldlM gatherBucket (h, [])
  match mergeLoop (chain.length + 1) h.mem chain with
  | none => .error .diverges
  | some (m, chain) => .ok (chain.foldl restore { h with mem := m })

end HeapManager

end Hostboot.HeapMgr
