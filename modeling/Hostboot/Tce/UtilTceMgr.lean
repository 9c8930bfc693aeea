import Hostboot.Util.Machine

/-!
# The TCE table

`UtilTceMgr` of `src/usr/util/utiltcemgr.C` gives windows of memory to the
service processor.  A window is a row of entries of the TCE table, one for
each page, and its token is the DMA address of the first entry.  An entry is
free when it has no read and no write access.  What was given out is kept in
the map `iv_allocatedAddrs`, by token.

The table is a function of the index; a field of an entry is a `Nat` that a
write truncates to its width.  The map is a list of keys with their values.
The address that `mm_block_map` returns and the return code of `mm_block_unmap`
are arguments here, and the runs take them from the device segment.  `initTceInHdw` commits its
own errors and always succeeds.  An assertion stops the machine, and a
function that can reach one answers an `Option`.  Of an error log there is the
reason code.
-/

namespace Hostboot.Tce

/-! ## The data -/

/-- `UtilTceMgr::MAX_NUM_TCE_TABLE_ENTRIES`. -/
def MAX_NUM_TCE_TABLE_ENTRIES : Nat := 0x080000

/-- `UtilTceMgr::MAX_TCE_TABLE_SIZE`. -/
def MAX_TCE_TABLE_SIZE : Nat := 0x400000

/-- `UtilTceMgr::MAX_TCE_MEMORY_SPACE`. -/
def MAX_TCE_MEMORY_SPACE : Nat := MAX_NUM_TCE_TABLE_ENTRIES * PAGESIZE

/-- `TceEntry_t`. -/
structure TceEntry where
  /-- The real page, in a field of 44 bits. -/
  realPageNumber : Nat
  writeAccess : Bool
  readAccess : Bool
  deriving DecidableEq, Repr

/-- An entry of which all bits are zero. -/
def TceEntry.zero : TceEntry := ⟨0, false, false⟩

/-- Whether an entry has no read and no write access. -/
def TceEntry.isFree (e : TceEntry) : Bool := !e.readAccess && !e.writeAccess

/-- `TceEntryInfo_t`. -/
structure TceEntryInfo where
  startAddr : Nat
  size : Nat
  deriving DecidableEq, Repr

/-- The reason codes of the error logs. -/
inductive ReasonCode where
  | UTIL_TCE_ADDR_NOT_ALIGNED
  | UTIL_TCE_INVALID_SIZE
  | UTIL_TCE_INVALID_COUNT
  | UTIL_ERC_BAD_PTR
  | UTIL_TCE_PREVIOUSLY_ALLOCATED
  | UTIL_TCE_NOT_ENOUGH_FREE_ENTRIES
  | UTIL_TCE_ENTRY_NOT_CONTIGUOUS
  | UTIL_TCE_BLOCK_UNMAP_FAIL
  deriving DecidableEq, Repr

/-- The state of a `UtilTceMgr`, with the table in memory. -/
structure UtilTceMgr where
  ivIsTceHwInitDone : Bool
  ivIsTceTableInitDone : Bool
  ivTceTableVaAddr : Nat
  ivTceTablePhysAddr : Nat
  /-- `iv_tceTableSize`, in bytes. -/
  ivTceTableSize : Nat
  /-- `iv_allocatedAddrs`. -/
  ivAllocatedAddrs : List (Nat × TceEntryInfo)
  /-- The memory of the table. -/
  table : Nat → TceEntry

/-- The entries that a size needs: `ALIGN_PAGE(size)/PAGESIZE` in 32 bits. -/
def numTces (size : Nat) : Nat := add64 size (PAGESIZE - 1) / PAGESIZE % 2 ^ 32

namespace UtilTceMgr

/-- `iv_tceEntryCount`. -/
def ivTceEntryCount (s : UtilTceMgr) : Nat := s.ivTceTableSize / 8

/-- The constructor.  The memory of the table holds anything. -/
def init (tableAddr tableSize : Nat) (memory : Nat → TceEntry) : UtilTceMgr where
  ivIsTceHwInitDone := true
  ivIsTceTableInitDone := false
  ivTceTableVaAddr := 0
  ivTceTablePhysAddr := tableAddr
  ivTceTableSize := tableSize
  ivAllocatedAddrs := []
  table := memory

/-- `memset` of the table to zero. -/
def clearTable (s : UtilTceMgr) : UtilTceMgr :=
  { s with table := fun i => if i < s.ivTceEntryCount then TceEntry.zero else s.table i }

/-! ## Setting up the table -/

/-- `UtilTceMgr::createTceTable`.  `mapped` is what `mm_block_map` returns. -/
def createTceTable (s : UtilTceMgr) (mapped : Nat) : UtilTceMgr × Option ReasonCode :=
  if s.ivIsTceTableInitDone then (s, none)
  else if s.ivTceTableSize > MAX_TCE_TABLE_SIZE then (s, some .UTIL_TCE_INVALID_SIZE)
  else if s.ivTceEntryCount > MAX_NUM_TCE_TABLE_ENTRIES then (s, some .UTIL_TCE_INVALID_COUNT)
  else if s.ivTceTablePhysAddr % (4 * 2 ^ 20) ≠ 0 then (s, some .UTIL_TCE_ADDR_NOT_ALIGNED)
  else
    let s := { s with ivTceTableVaAddr := mapped }
    if mapped = 0 then (s, some .UTIL_ERC_BAD_PTR)
    else ({ s.clearTable with ivIsTceTableInitDone := true }, none)

def initTceInHdw (s : UtilTceMgr) : UtilTceMgr := { s with ivIsTceHwInitDone := true }

/-- The part of `allocateTces` that sets up the table and the hardware when
that has not happened. -/
def prepare (s : UtilTceMgr) (mapped : Nat) : UtilTceMgr × Option ReasonCode :=
  let (s, errl) := if s.ivIsTceTableInitDone then (s, none) else s.createTceTable mapped
  match errl with
  | some rc => (s, some rc)
  | none => (if s.ivIsTceHwInitDone then s else s.initTceInHdw, none)

/-! ## Searching the table -/

/-- How the inner loop of the search ends. -/
inductive Row where
  | found
  | blocked (index : Nat)
  | ended
  deriving DecidableEq, Repr

/-- The inner loop of the search, which counts free entries. -/
def rowLoop (table : Nat → TceEntry) (numTcesNeeded : Nat) : Nat → Nat → Nat → Row
  | 0, _, _ => .ended
  | fuel + 1, indexInRow, availIndex =>
    if (table indexInRow).isFree then
      if availIndex + 1 ≥ numTcesNeeded then .found
      else rowLoop table numTcesNeeded fuel (indexInRow + 1) (availIndex + 1)
    else .blocked indexInRow

/-- The outer loop of the search.  Behind an entry in use it goes on two
entries further: the loop increments an index that is already incremented. -/
def searchLoop (s : UtilTceMgr) (numTcesNeeded : Nat) : Nat → Nat → Option Nat
  | 0, _ => none
  | fuel + 1, tceIndex =>
    if tceIndex < s.ivTceEntryCount then
      if (s.table tceIndex).isFree then
        if numTcesNeeded + tceIndex > s.ivTceEntryCount then none
        else
          match rowLoop s.table numTcesNeeded numTcesNeeded tceIndex 0 with
          | .found => some tceIndex
          | .blocked indexInRow => searchLoop s numTcesNeeded fuel (indexInRow + 1 + 1)
          | .ended => searchLoop s numTcesNeeded fuel (tceIndex + 1)
      else searchLoop s numTcesNeeded fuel (tceIndex + 1)
    else none

/-- The search for a row of free entries. -/
def findTces (s : UtilTceMgr) (numTcesNeeded : Nat) : Option Nat :=
  s.searchLoop numTcesNeeded (s.ivTceEntryCount + 1) 0

/-! ## The calls -/

/-- The loop that fills the entries of a window. -/
def setTces (startingAddress startingIndex : Nat) (rwNotRO : Bool) (table : Nat → TceEntry) :
    Nat → Nat → TceEntry
  | 0 => table
  | i + 1 =>
    let table := setTces startingAddress startingIndex rwNotRO table i
    let index := startingIndex + i
    Function.update table index
      { table index with
        realPageNumber := add64 startingAddress (i * PAGESIZE) / PAGESIZE % 2 ^ 44
        writeAccess := if rwNotRO then true else (table index).writeAccess
        readAccess := true }

/-- `iv_allocatedAddrs[token] = info`. -/
def insertAddr (allocated : List (Nat × TceEntryInfo)) (token : Nat) (info : TceEntryInfo) :
    List (Nat × TceEntryInfo) :=
  (token, info) :: allocated.filter fun a => a.1 ≠ token

/-- `UtilTceMgr::allocateTces`: the token, or the reason code of the error. -/
def allocateTces (s : UtilTceMgr) (startingAddress size : Nat) (rwNotRO : Bool) (mapped : Nat) :
    Option (UtilTceMgr × Except ReasonCode Nat) :=
  if size = 0 then none
  else if startingAddress % PAGESIZE ≠ 0 then some (s, .error .UTIL_TCE_ADDR_NOT_ALIGNED)
  else
    let numTcesNeeded := numTces size
    if numTcesNeeded > s.ivTceEntryCount ∨ size > MAX_TCE_MEMORY_SPACE then
      some (s, .error .UTIL_TCE_INVALID_SIZE)
    else if s.ivAllocatedAddrs.any fun a => a.2.startAddr = startingAddress then
      some (s, .error .UTIL_TCE_PREVIOUSLY_ALLOCATED)
    else
      match s.prepare mapped with
      | (s, some rc) => some (s, .error rc)
      | (s, none) =>
        match s.findTces numTcesNeeded with
        | none => some (s, .error .UTIL_TCE_NOT_ENOUGH_FREE_ENTRIES)
        | some startingIndex =>
          let token := startingIndex * PAGESIZE % 2 ^ 32
          some ({ s with
            table := setTces startingAddress startingIndex rwNotRO s.table numTcesNeeded
            ivAllocatedAddrs := insertAddr s.ivAllocatedAddrs token ⟨startingAddress, size⟩ },
            .ok token)

/-- The state of the loop that clears the entries of a window. -/
structure Cleared where
  table : Nat → TceEntry
  isContiguous : Bool
  previousAddress : Nat

/-- The loop that clears the entries of a window. -/
def clearTces (startingIndex : Nat) (table : Nat → TceEntry) : Nat → Cleared
  | 0 => ⟨table, true, 0⟩
  | i + 1 =>
    let r := clearTces startingIndex table i
    let tceIndex := startingIndex + i
    { table := Function.update r.table tceIndex TceEntry.zero
      isContiguous :=
        if tceIndex ≠ startingIndex ∧
            sub64 (r.table tceIndex).realPageNumber r.previousAddress ≠ 1 then false
        else r.isContiguous
      previousAddress := (r.table tceIndex).realPageNumber }

/-- `UtilTceMgr::deallocateTces`, with the error it commits. -/
def deallocateTces (s : UtilTceMgr) (startingToken : Nat) :
    Option (UtilTceMgr × Option ReasonCode) :=
  if startingToken % PAGESIZE ≠ 0 then none
  else
    match s.ivAllocatedAddrs.find? fun a => a.1 = startingToken with
    | none => some (s, none)
    | some (_, info) =>
      if info.size = 0 then none
      else
        let startingIndex := startingToken / PAGESIZE
        let numTcesNeeded := numTces info.size
        if startingIndex > s.ivTceEntryCount ∨
            startingIndex + numTcesNeeded > s.ivTceEntryCount then
          some (s, some .UTIL_TCE_INVALID_SIZE)
        else
          let r := clearTces startingIndex s.table numTcesNeeded
          some ({ s with
            table := r.table
            ivAllocatedAddrs := s.ivAllocatedAddrs.filter fun a => a.1 ≠ startingToken },
            if r.isContiguous then none else some .UTIL_TCE_ENTRY_NOT_CONTIGUOUS)

/-- `UtilTceMgr::disableTces`.  `rc` is what `mm_block_unmap` returns. -/
def disableTces (s : UtilTceMgr) (rc : Int) : UtilTceMgr × Option ReasonCode :=
  let s := { s with ivIsTceHwInitDone := false }
  if s.ivTceTableVaAddr ≠ 0 ∧ s.ivIsTceTableInitDone then
    let s := s.clearTable
    if rc ≠ 0 then (s, some .UTIL_TCE_BLOCK_UNMAP_FAIL)
    else ({ s with ivIsTceTableInitDone := false, ivAllocatedAddrs := [] }, none)
  else ({ s with ivAllocatedAddrs := [] }, none)

end UtilTceMgr

end Hostboot.Tce
