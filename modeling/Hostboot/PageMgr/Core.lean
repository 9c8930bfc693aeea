import Hostboot.Util.Containers
import Hostboot.Util.Machine

/-!
# The page manager core

`PageManagerCore` of `src/kernel/pagemgr.C` hands out physical pages from 16
free lists.  List `k` holds the start addresses of free blocks of `2 ^ k`
pages.  A request is rounded up to a block size, a larger block is split when
the list is empty, and the unused tail of a block goes back through
`freePage`.  `coalesce` joins free neighbours of the same size again.

An address is a `Nat`.  The lists are `Util::Lockfree::Stack`, which keeps 32
bits of a pointer, so `push` truncates.  Sums of addresses are not truncated:
every address the core computes lies in a range below 4 GB.  `kassert` stops
the machine, and a function that can reach one answers an `Option`.

The counters for debug output (`cv_coalesce_count`) are left out.
-/

namespace Hostboot.PageMgr

open Hostboot.Util

/-- `PageManagerCore::BUCKETS`. -/
def BUCKETS : Nat := 16

/-- `PageManagerCore::MAX_HEAP_RANGES`. -/
def MAX_HEAP_RANGES : Nat := 4

/-- The state of one `PageManagerCore`. -/
structure PageManagerCore where
  /-- Free pages. -/
  ivAvailable : Nat
  /-- Whether this instance supports `coalesce`. -/
  ivSupportsCoalesce : Bool
  /-- The free lists; list `k` holds blocks of `2 ^ k` pages. -/
  ivHeap : Nat → List Nat
  /-- The registered ranges, as start address and size in bytes. -/
  ivRanges : List (Nat × Nat)

namespace PageManagerCore

/-- The constructor: no pages, and no range registered. -/
def init (supportsCoalesce : Bool) : PageManagerCore where
  ivAvailable := 0
  ivSupportsCoalesce := supportsCoalesce
  ivHeap := fun _ => []
  ivRanges := List.replicate MAX_HEAP_RANGES (0, 0)

/-- Push a block on the free list of its size, without a bounds check. -/
def pushHeap (s : PageManagerCore) (p n : Nat) : PageManagerCore :=
  { s with ivHeap := Function.update s.ivHeap n (Stack.push (s.ivHeap n) p) }

/-- `PageManagerCore::push_bucket`. -/
def pushBucket (s : PageManagerCore) (p n : Nat) : PageManagerCore :=
  if n ≥ BUCKETS then s else s.pushHeap p n

/-- The recursion of `pop_bucket`.  The bucket number grows at each call and
stops at `BUCKETS`, so `BUCKETS + 1` calls are enough. -/
def popBucketLoop : Nat → PageManagerCore → Nat → Option Nat × PageManagerCore
  | 0, s, _ => (none, s)
  | fuel + 1, s, n =>
    if n ≥ BUCKETS then (none, s)
    else
      match Stack.pop (s.ivHeap n) with
      | some (p, rest) => (some p, { s with ivHeap := Function.update s.ivHeap n rest })
      | none =>
        -- Split an item of the next bucket: the upper half goes back.
        match popBucketLoop fuel s (n + 1) with
        | (none, s') => (none, s')
        | (some p, s') => (some p, s'.pushBucket (p + PAGESIZE * 2 ^ n) n)

/-- `PageManagerCore::pop_bucket`. -/
def popBucket (s : PageManagerCore) (n : Nat) : Option Nat × PageManagerCore :=
  popBucketLoop (BUCKETS + 1) s n

/-- The recursion of `freePage`.  The count shrinks at each call. -/
def freePageLoop (overAllocated : Bool) :
    Nat → PageManagerCore → Nat → Nat → PageManagerCore
  | 0, s, _, _ => s
  | fuel + 1, s, page, pageCount =>
    if page = 0 ∨ pageCount = 0 then s
    else
      let whichBucket := Nat.log2 pageCount
      let bucketSize := 2 ^ whichBucket
      let s := s.pushBucket
        (page + (if overAllocated then (pageCount - bucketSize) * PAGESIZE else 0)) whichBucket
      let s := { s with ivAvailable := add64 s.ivAvailable bucketSize }
      if bucketSize ≠ pageCount then
        freePageLoop overAllocated fuel s
          (page + (if overAllocated then 0 else bucketSize * PAGESIZE)) (pageCount - bucketSize)
      else s

def freePage (s : PageManagerCore) (page pageCount : Nat) (overAllocated : Bool) :
    PageManagerCore :=
  freePageLoop overAllocated pageCount s page pageCount

/-- The smallest bucket that holds `pageCount` pages. -/
def bucketFor (pageCount : Nat) : Nat :=
  if 2 ^ Nat.log2 pageCount ≠ pageCount then Nat.log2 pageCount + 1 else Nat.log2 pageCount

/-- The loop of `allocatePage` that asks `pop_bucket` again after a failure. -/
def popRetry : Nat → PageManagerCore → Nat → Option Nat × PageManagerCore
  | 0, s, _ => (none, s)
  | retries + 1, s, n =>
    match s.popBucket n with
    | (some p, s') => (some p, s')
    | (none, s') => popRetry retries s' n

def allocatePage (s : PageManagerCore) (pageCount : Nat) : Option Nat × PageManagerCore :=
  let whichBucket := bucketFor pageCount
  let bucketSize := 2 ^ whichBucket
  match popRetry 6 s whichBucket with
  | (none, s) => (none, s)
  | (some page, s) =>
    let s := { s with ivAvailable := sub64 s.ivAvailable bucketSize }
    -- The part of the block above the request goes back to the free lists.
    if bucketSize ≠ pageCount then
      (some page, s.freePage (page + pageCount * PAGESIZE) (bucketSize - pageCount) true)
    else (some page, s)

/-- The inner loop of `addMemory`: lower `pageLength` until the block fits. -/
def fitBucket (length : Nat) : Nat → Nat
  | 0 => 0
  | k + 1 => if length < 2 ^ (k + 1) then fitBucket length k else k + 1

/-- The outer loop of `addMemory`, which cuts a range into blocks.  Each
round takes at least one page. -/
def addMemoryLoop : Nat → PageManagerCore → Nat → Nat → Nat → PageManagerCore
  | 0, s, _, _, _ => s
  | fuel + 1, s, page, length, pageLength =>
    if length > 0 then
      let pageLength := fitBucket length pageLength
      addMemoryLoop fuel (s.pushHeap page pageLength)
        (page + 2 ^ pageLength * PAGESIZE) (length - 2 ^ pageLength) pageLength
    else s

/-- The loop of `addMemory` over the range tracker: the first free element
takes the range, and every range before it must start lower. -/
def registerRange (addr pageCount : Nat) : List (Nat × Nat) → Option (List (Nat × Nat))
  | [] => some []
  | range :: rest =>
    if range.1 = 0 then some ((addr, pageCount * PAGESIZE) :: rest)
    else if addr > range.1 then (registerRange addr pageCount rest).map (range :: ·)
    else none

def addMemory (s : PageManagerCore) (addr pageCount : Nat) : Option PageManagerCore :=
  let s := addMemoryLoop pageCount s (alignPage addr) pageCount (BUCKETS - 1)
  if s.ivSupportsCoalesce then
    if (s.ivRanges.getLast?.getD (0, 0)).1 ≠ 0 then none
    else
      (registerRange addr pageCount s.ivRanges).map fun ranges =>
        { s with ivRanges := ranges, ivAvailable := add64 s.ivAvailable pageCount }
  else some { s with ivAvailable := add64 s.ivAvailable pageCount }

/-- The first loop of `coalesce`: move a free list into a priority queue. -/
def drain : List Nat → List Nat → List Nat × List Nat
  | [], pq => ([], pq)
  | p :: rest, pq => if p = 0 then (p :: rest, pq) else drain rest (PQueue.insert pq p)

/-- The registered range that holds an address. -/
def findRange (ranges : List (Nat × Nat)) (addr : Nat) : Option (Nat × Nat) :=
  ranges.find? fun range => decide (range.1 ≤ addr) && decide (addr < range.1 + range.2)

/-- The second loop of `coalesce`, which takes the blocks of one size in
address order and merges an even block with its upper neighbour.  Each round
removes a block from the queue. -/
def mergeLoop (bucket : Nat) : Nat → PageManagerCore → List Nat → Option PageManagerCore
  | 0, s, _ => some s
  | fuel + 1, s, pq =>
    match Queue.remove pq with
    | none => some s
    | some (p, pq) =>
      match findRange s.ivRanges p with
      | none => none
      | some range =>
        let pIdx := (p - range.1) / (2 ^ bucket * PAGESIZE)
        if pIdx % 2 ≠ 0 then mergeLoop bucket fuel (s.pushHeap p bucket) pq
        else
          let pSeek := p + 2 ^ bucket * PAGESIZE
          match PQueue.removeIf pq pSeek with
          | (none, pq) => mergeLoop bucket fuel (s.pushHeap p bucket) pq
          | (some pNext, pq) =>
            if pNext = pSeek then mergeLoop bucket fuel (s.pushBucket p (bucket + 1)) pq
            else mergeLoop bucket fuel ((s.pushHeap p bucket).pushHeap pNext bucket) pq

/-- One round of `coalesce`: the blocks of one size. -/
def coalesceBucket (s : PageManagerCore) (bucket : Nat) : Option PageManagerCore :=
  let drained := drain (s.ivHeap bucket) []
  mergeLoop bucket drained.2.length
    { s with ivHeap := Function.update s.ivHeap bucket drained.1 } drained.2

def coalesce (s : PageManagerCore) : Option PageManagerCore :=
  if s.ivSupportsCoalesce then (List.range (BUCKETS - 1)).foldlM coalesceBucket s else some s

attribute [grind =] popBucketLoop popRetry freePageLoop addMemoryLoop mergeLoop registerRange
  fitBucket allocatePage

end PageManagerCore

end Hostboot.PageMgr
