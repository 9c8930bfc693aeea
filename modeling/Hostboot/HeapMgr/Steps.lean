import Hostboot.HeapMgr.SmallHeap

/-!
# The steps of the allocator

A task can be suspended at any step of `HeapManager::_allocate`,
`pop_bucket`, `push_bucket`, `newPage` and `_free`, and other tasks and the
kernel go on.  `Phase` is the place where a call stands.  A step is one access
to a free stack or one store to the memory; what a call only reads is part of
the step before which it reads.

`Phase.held` are the chunks a call has taken out of the free stacks and has
neither handed out nor put back.  `Phase.region` is the part of a new page that
is cut into chunks already.
-/

namespace Hostboot.HeapMgr

open Hostboot.Lib Hostboot.Util

/-! ## The calls -/

/-- The next store of `push_bucket`, or its access to the free stack. -/
inductive PushStep where
  | free
  | size
  | allocator
  | link
  deriving DecidableEq, Repr

/-- The next store of `_allocate` to the chunk it got. -/
inductive ClaimStep where
  | valid
  | free
  | size
  | allocator
  deriving DecidableEq, Repr

/-- Where a call stands.  `sz` is what `_allocate` was asked for, `want` its
bucket, `c` the chunk that was popped. -/
inductive Phase where
  /-- `pop_bucket` before the access to free stack `i`. -/
  | pop (sz want i : Nat)
  /-- `pop_bucket` of bucket `i` got a chunk of the next bucket. -/
  | split (sz want i c : Nat)
  /-- Before the chunk gets the smaller bucket. -/
  | shrink (sz want i c c1Size : Nat)
  /-- In `push_bucket` of the rest of the chunk. -/
  | pushRest (sz want i c c1Bucket : Nat) (step : PushStep)
  /-- `pop_bucket` returned. -/
  | popped (sz want c : Nat)
  | claim (sz want c : Nat) (step : ClaimStep)
  /-- `newPage` before it asks for a page. -/
  | newPage (sz : Nat)
  /-- At the head of the loop of `newPage`. -/
  | carve (sz page c remaining : Nat)
  | pushCarved (sz page c bucket remaining : Nat) (step : PushStep)
  /-- `_free` in `push_bucket`. -/
  | free (c bucket : Nat) (step : PushStep)
  deriving DecidableEq, Repr

/-- What a step of a call leads to. -/
inductive Outcome where
  | suspended (p : Phase)
  /-- `_allocate` returns. -/
  | allocated (ptr sz : Nat)
  /-- `_free` returns. -/
  | freed
  deriving DecidableEq, Repr

namespace HeapManager

/-- A store to the memory. -/
def setMem (h : HeapManager) (m : Mem) : HeapManager := { h with mem := m }

@[simp] theorem setMem_mem (h : HeapManager) (m : Mem) : (h.setMem m).mem = m := rfl

/-- One step of `push_bucket`. -/
def pushStep (h : HeapManager) (chunk bucket : Nat) : PushStep → HeapManager × Option PushStep
  | .free =>
    if bucket ≥ BUCKETS then (h, none)
    else (h.setMem (setFree h.mem chunk (byte 'F')), some .size)
  | .size => (h.setMem (setSize h.mem chunk 0), some .allocator)
  | .allocator => (h.setMem (setAllocator h.mem chunk 0), some .link)
  | .link =>
    ({ h with
      firstChunk := Function.update h.firstChunk bucket (Stack.push (h.firstChunk bucket) chunk) },
      none)

end HeapManager

/-- `pop_bucket` of bucket `i` has a chunk of its bucket: it returns it, to
`_allocate` or to the level below. -/
def returned (sz want i c : Nat) : Phase :=
  if i = want then .popped sz want c else .split sz want (i - 1) c

/-- The start of `_allocate`. -/
def startAllocate (sz : Nat) : Phase :=
  let whichBucket := bucketIndex (sz + CHUNK_HEADER_PLUS_RESERVED)
  .pop sz whichBucket whichBucket

/-- One step of a call of the task `tid`.  `page` is the page that the page
manager gives. -/
def Phase.next (h : HeapManager) (tid page : Nat) : Phase → Except Fault (HeapManager × Outcome)
  | .pop sz want i =>
    if i ≥ BUCKETS then .ok (h, .suspended (.newPage sz))
    else
      match Stack.pop (h.firstChunk i) with
      | some (c, rest) =>
        .ok ({ h with firstChunk := Function.update h.firstChunk i rest },
          .suspended (returned sz want i c))
      | none => .ok (h, .suspended (.pop sz want (i + 1)))
  | .split sz want i c =>
    let cSize := bucketByteSize i
    let c1Size := sub64 (bucketByteSize (chunkBucket h.mem c)) cSize
    .ok (h.setMem (setBucket h.mem (c + cSize) (bucketIndex c1Size)),
      .suspended (.shrink sz want i c c1Size))
  | .shrink sz want i c c1Size =>
    .ok (h.setMem (setBucket h.mem c i),
      .suspended (if c1Size ≥ MIN_BUCKET_SIZE then .pushRest sz want i c (bucketIndex c1Size) .free
        else returned sz want i c))
  | .pushRest sz want i c c1Bucket step =>
    match h.pushStep (c + bucketByteSize i) c1Bucket step with
    | (h, some step) => .ok (h, .suspended (.pushRest sz want i c c1Bucket step))
    | (h, none) => .ok (h, .suspended (returned sz want i c))
  | .popped sz want c =>
    if chunkFree h.mem c = byte 'F' then .ok (h, .suspended (.claim sz want c .valid))
    else .error .assertion
  | .claim sz want c .valid =>
    let size := bucketByteSize (chunkBucket h.mem c)
    .ok (h.setMem (h.mem.put (c + size - 1) (byte 'V')), .suspended (.claim sz want c .free))
  | .claim sz want c .free =>
    .ok (h.setMem (setFree h.mem c (byte 'A')), .suspended (.claim sz want c .size))
  | .claim sz want c .size =>
    .ok (h.setMem (setSize h.mem c sz), .suspended (.claim sz want c .allocator))
  | .claim sz _ c .allocator =>
    .ok (h.setMem (setAllocator h.mem c tid), .allocated (c + 8) sz)
  | .newPage sz => .ok (h, .suspended (.carve sz page page PAGESIZE))
  | .carve sz page c remaining =>
    if remaining ≥ MIN_BUCKET_SIZE then
      let bucket := HeapManager.fitBucket remaining
      .ok (h.setMem (setBucket h.mem c bucket),
        .suspended (.pushCarved sz page c bucket remaining .free))
    else .ok ({ h with pages := page :: h.pages }, .suspended (startAllocate sz))
  | .pushCarved sz page c bucket remaining step =>
    match h.pushStep c bucket step with
    | (h, some step) => .ok (h, .suspended (.pushCarved sz page c bucket remaining step))
    | (h, none) =>
      let bsize := bucketByteSize bucket
      .ok (h, .suspended (.carve sz page (c + bsize) (remaining - bsize)))
  | .free c bucket step =>
    match h.pushStep c bucket step with
    | (h, some step) => .ok (h, .suspended (.free c bucket step))
    | (h, none) => .ok (h, .freed)

attribute [grind =] Phase.next

/-- The chunks that a call holds. -/
def Phase.held : Phase → Multiset (Nat × Nat)
  | .pop _ _ _ | .newPage _ | .carve _ _ _ _ => 0
  | .split _ _ i c | .shrink _ _ i c _ => {(c, i + 1)}
  | .pushRest _ _ i c c1Bucket _ => {(c + bucketByteSize i, c1Bucket), (c, i)}
  | .popped _ want c | .claim _ want c _ => {(c, want)}
  | .pushCarved _ _ c bucket _ _ | .free c bucket _ => {(c, bucket)}

attribute [grind =] Phase.held

/-- The part of a new page that a call has cut into chunks. -/
def Phase.region : Phase → Option (Nat × Nat)
  | .carve _ page c _ => some (page, c)
  | .pushCarved _ page c bucket _ _ => some (page, c + bucketByteSize bucket)
  | _ => none

attribute [grind =] Phase.region

/-- The call is about to ask for a page. -/
def Phase.asks : Phase → Bool
  | .newPage _ => true
  | _ => false

attribute [grind =] Phase.asks

/-- Where `_coalesce` can meet something of a suspended call above a free chunk:
the chunk that was popped or is to be returned, and the rest of a page that
`newPage` has not cut yet. -/
def Phase.exposed : Phase → List Nat
  | .pop _ _ _ | .newPage _ => []
  | .split _ _ _ c | .shrink _ _ _ c _ | .pushRest _ _ _ c _ _ | .popped _ _ c | .claim _ _ c _
  | .pushCarved _ _ c _ _ _ | .free c _ _ => [c]
  | .carve _ _ c remaining => if MIN_BUCKET_SIZE ≤ remaining then [c] else []

/-- `_free` of a pointer that is not null, up to `push_bucket`. -/
def startFree (h : HeapManager) (ptr : Nat) : Except Fault Phase :=
  if VMM_VADDR_MALLOC ≤ ptr ∧ ptr < VMM_VADDR_MALLOC + VMM_MALLOC_SIZE then .error .largeHeap
  else if alignPage ptr = ptr then .error .largeHeap
  else
    let chunk := ptr - 8
    if chunkFree h.mem chunk = byte 'F' then .error .assertion
    else
      let size := bucketByteSize (chunkBucket h.mem chunk)
      if h.mem (chunk + size - 1) ≠ byte 'V' then .error .crash
      else .ok (.free chunk (chunkBucket h.mem chunk) .free)

/-! ## The system -/

/-- A call in progress. -/
structure Call where
  tid : Nat
  phase : Phase
  deriving DecidableEq, Repr

namespace Preempt

/-- The small heap, the live allocations with the bytes asked for, and the calls
in progress. -/
structure Sys where
  heap : HeapManager
  live : List (Nat × Nat)
  calls : List Call

/-- The start of a run, with any contents of the memory. -/
def Sys.init (mem : Mem) : Sys := ⟨⟨fun _ => [], mem, []⟩, [], []⟩

inductive Op where
  | allocate (tid sz : Nat)
  | free (tid ptr : Nat)
  /-- A step of the `n`-th call, and the page it gets when it asks for one. -/
  | advance (n page : Nat)
  | write (ptr offset : Nat) (v : UInt8)
  | coalesce
  deriving DecidableEq, Repr

/-- What the heap has of each page. -/
def Sys.regions (s : Sys) : List (Nat × Nat) :=
  s.calls.filterMap (fun x => x.phase.region) ++ pageRegions s.heap.pages

/-- The chunks outside the free stacks. -/
def Sys.held (s : Sys) : Multiset (Nat × Nat) :=
  chunksOf s.heap s.live + (s.calls.map fun x => x.phase.held).sum

/-- The rules that the clients and the page manager keep. -/
def Op.Allowed (s : Sys) : Op → Prop
  | .allocate _ sz => sz ≤ MAX_SMALL_ALLOC_SIZE
  | .free _ ptr => ptr ∈ s.live.map Prod.fst
  | .advance n page => ∀ x ∈ s.calls[n]?, x.phase.asks = true →
    PagesOk (page :: s.regions.map Prod.fst)
  | .write ptr offset _ => ∃ a ∈ s.live, a.1 = ptr ∧ offset < a.2
  | .coalesce => True

/-- A step of the call `x`, with the other calls. -/
def Sys.advance (s : Sys) (x : Call) (others : List Call) (page : Nat) : Except Fault Sys := do
  let (h, outcome) ← x.phase.next s.heap x.tid page
  match outcome with
  | .suspended p => .ok ⟨h, s.live, ⟨x.tid, p⟩ :: others⟩
  | .allocated ptr sz => .ok ⟨h, (ptr, sz) :: s.live, others⟩
  | .freed => .ok ⟨h, s.live, others⟩

/-- One step. -/
def exec (s : Sys) : Op → Except Fault Sys
  | .allocate tid sz => .ok ⟨s.heap, s.live, ⟨tid, startAllocate sz⟩ :: s.calls⟩
  | .free tid ptr => do
    let p ← startFree s.heap ptr
    .ok ⟨s.heap, forget s.live ptr, ⟨tid, p⟩ :: s.calls⟩
  | .advance n page =>
    match s.calls[n]? with
    | none => .ok s
    | some x => s.advance x (s.calls.eraseIdx n) page
  | .write ptr offset v => .ok ⟨s.heap.setMem (s.heap.mem.put (ptr + offset) v), s.live, s.calls⟩
  | .coalesce => do
    let h ← s.heap.coalesce
    .ok ⟨h, s.live, s.calls⟩

attribute [grind =] exec

/-- An allowed step that does not stop. -/
def Step (s : Sys) (op : Op) (s' : Sys) : Prop := op.Allowed s ∧ exec s op = .ok s'

/-- No chunk of a suspended call bears the two marks of a chunk in the chain of
`_coalesce`. -/
def Unmarked (s : Sys) : Prop :=
  ∀ x ∈ s.calls, ∀ a ∈ x.phase.exposed, HeapManager.isActive s.heap.mem a = false

/-- A step in which `_coalesce` runs only when no chunk of a suspended call bears
the two marks. -/
def UnmarkedStep (s : Sys) (op : Op) (s' : Sys) : Prop :=
  Step s op s' ∧ (op = .coalesce → Unmarked s)

/-! ## Running the model -/

instance (pages : List Nat) : Decidable (PagesOk pages) :=
  decidable_of_iff (pages.Nodup ∧ ∀ p ∈ pages, 0 < p ∧ p % PAGESIZE = 0 ∧ p + PAGESIZE ≤ 2 ^ 32)
    ⟨fun h => ⟨h.1, h.2⟩, fun h => ⟨h.nodup, h.page⟩⟩

instance (s : Sys) : (op : Op) → Decidable (op.Allowed s)
  | .allocate _ sz => inferInstanceAs (Decidable (sz ≤ MAX_SMALL_ALLOC_SIZE))
  | .free _ ptr => inferInstanceAs (Decidable (ptr ∈ s.live.map Prod.fst))
  | .advance n page => inferInstanceAs (Decidable (∀ x ∈ s.calls[n]?, x.phase.asks = true →
    PagesOk (page :: s.regions.map Prod.fst)))
  | .write ptr offset _ => inferInstanceAs (Decidable (∃ a ∈ s.live, a.1 = ptr ∧ offset < a.2))
  | .coalesce => inferInstanceAs (Decidable True)

instance (s : Sys) : Decidable (Unmarked s) :=
  inferInstanceAs (Decidable (∀ x ∈ s.calls, ∀ a ∈ x.phase.exposed,
    HeapManager.isActive s.heap.mem a = false))

/-- An allowed step, computed. -/
def Sys.play (s : Sys) (op : Op) : Option Sys :=
  if op.Allowed s then (exec s op).toOption else none

theorem Sys.step_of_play {s s' : Sys} {op : Op} (h : s.play op = some s') : Step s op s' := by
  unfold Sys.play at h
  split_ifs at h with hallowed
  refine ⟨hallowed, ?_⟩
  cases hexec : exec s op with
  | error e => simp [hexec, Except.toOption] at h
  | ok s1 =>
    simp only [hexec, Except.toOption, Option.some.injEq] at h
    rw [h]

/-- The same for a step that does not coalesce marked chunks. -/
def Sys.playUnmarked (s : Sys) (op : Op) : Option Sys :=
  if op = .coalesce → Unmarked s then s.play op else none

theorem Sys.step_of_playUnmarked {s s' : Sys} {op : Op} (h : s.playUnmarked op = some s') :
    UnmarkedStep s op s' := by
  unfold Sys.playUnmarked at h
  split_ifs at h with hmark
  exact ⟨Sys.step_of_play h, hmark⟩

end Preempt

end Hostboot.HeapMgr
