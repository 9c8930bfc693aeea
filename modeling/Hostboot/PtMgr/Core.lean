import Hostboot.Util.Machine

/-!
# The hardware page table

`PageTableManager` of `src/kernel/ptmgr.C` keeps the hashed page table of the
processor: 2048 groups (PTEG) of eight entries (PTE).  A virtual address is
hashed to its group, and the entry in the group is known by its abbreviated
virtual address `AVA`, the address without its low 23 bits.

An address is a `Nat` below `2 ^ 64`, and an entry is found by its index in
the table instead of its real address; the table starts at a multiple of the
size of a group, so the group of entry `i` is `i / 8`.  A bit field is a `Nat`
that a write truncates to its width.  The fields of an entry that no function
reads or sets (`rsv0`, `SW`, `TS`, the keys) are left out, and so are the
synchronising instructions and the counts that `pushUsageStats` sends to the
segment manager.  `kassert` stops the machine, and a function that can reach
one answers an `Option`.
-/

namespace Hostboot.PtMgr

/-- `PageTableManager::PTEG_SIZE`: the entries of a group. -/
def PTEG_SIZE : Nat := 8

/-- `PageTableManager::PTEG_COUNT`: the groups of the table. -/
def PTEG_COUNT : Nat := 2048

/-- `PageTableManager::PTE_AVA_MASK`. -/
def PTE_AVA_MASK : Nat := 0x1FFFFFFFFFFF

/-- `SLBE_b`: the bits of a page offset. -/
def SLBE_b : Nat := 12

/-- `SegmentManager::CI_ACCESS`. -/
def CI_ACCESS : Nat := 0xFFFFFFFF

/-- The flags of `ACCESS_TYPES` (`src/include/sys/mm.h`). -/
def READ_ONLY : Nat := 0x1
def WRITABLE : Nat := 0x2
def EXECUTABLE : Nat := 0x4
def BYPASS_HRMOR : Nat := 0x80
def GUARDED : Nat := 0x100

/-- `PageTableManager::PageTableEntry`. -/
structure PageTableEntry where
  AVA : Nat
  /-- Shadow of the reference bit. -/
  R2 : Nat
  LRU : Nat
  L : Nat
  H : Nat
  /-- The entry is valid. -/
  V : Nat
  pp0 : Nat
  B : Nat
  /-- The physical page. -/
  PN : Nat
  /-- The reference bit, which the hardware sets. -/
  R : Nat
  C : Nat
  WIMG : Nat
  /-- No execute. -/
  N : Nat
  pp1_2 : Nat
  deriving DecidableEq, Repr

/-- The state of a `PageTableManager`. -/
structure PageTableManager where
  /-- Whether the instance has its own table, for tests in user space. -/
  ivTABLE : Bool
  /-- The physical page of the idle task. -/
  ivIdleTaskPN : Nat
  /-- The table. -/
  pt : Nat → PageTableEntry

/-! ## The group of an address -/

/-- `EXTRACT_RJ`: the bits from `startbit` to `lastbit` of a word, bit 0 being
the highest. -/
def extractRJ (var64 startbit lastbit : Nat) : Nat :=
  let mask := ((2 ^ 64 - 1) >>> startbit) &&& (((2 ^ 64 - 1) <<< (63 - lastbit)) % 2 ^ 64)
  (var64 &&& mask) >>> (63 - lastbit)

/-- `EXTRACT_RJ_LEN` on a buffer of `bitlen > 64` bits of which `lastword` are
the last 64.  The bounds its asserts check hold at every call. -/
def extractRJLen (lastword bitlen startbit lastbit : Nat) : Nat :=
  if lastbit < bitlen - 64 then 0
  else
    let diff := bitlen - 64
    let lastword :=
      if startbit < diff then lastword >>> (diff - startbit)
      else (lastword <<< (startbit - diff)) % 2 ^ 64
    extractRJ lastword 0 (lastbit - startbit)

/-- `PageTableManager::computeHash` for segments of 1 TB. -/
def computeHash (vAddr : Nat) : Nat :=
  let va24_37 := (extractRJLen vAddr 78 24 37 <<< 25) % 2 ^ 64
  let va0_37 := extractRJLen vAddr 78 0 37
  let va38_77b := extractRJLen vAddr 78 38 (77 - SLBE_b)
  va24_37 ^^^ va0_37 ^^^ va38_77b

/-- `PageTableManager::findPTEG`: the number of the group. -/
def findPTEG (vAddr : Nat) : Nat := computeHash vAddr % PTEG_COUNT

/-! ## Entries -/

/-- `PageTableManager::setupDefaultPTE`. -/
def setupDefaultPTE (pte : PageTableEntry) : PageTableEntry :=
  { pte with B := 1, L := 0, H := 0, C := 1 }

/-- Whether a flag of an access type is set. -/
def hasFlag (accessType flag : Nat) : Bool := accessType &&& flag ≠ 0

/-- `PageTableManager::setAccessBits`.  An access type without a known flag
leaves `N` as it was. -/
def setAccessBits (pte : PageTableEntry) (accessType : Nat) : PageTableEntry :=
  let pte := { pte with pp0 := 0, WIMG := 0, pp1_2 := 0 }
  if accessType = CI_ACCESS then { pte with WIMG := 0b0101, pp1_2 := 0b10, N := 1 }
  else
    let pte := { pte with WIMG := if hasFlag accessType GUARDED then 0b0011 else 0b0010 }
    if hasFlag accessType READ_ONLY then { pte with pp1_2 := 0b01, N := 1 }
    else if hasFlag accessType WRITABLE then { pte with pp1_2 := 0b10, N := 1 }
    else if hasFlag accessType EXECUTABLE then { pte with pp1_2 := 0b01, N := 0 }
    else pte

/-- `PageTableManager::updateLRUEntry`. -/
def updateLRUEntry (pte : PageTableEntry) : PageTableEntry :=
  if pte.V = 1 ∧ pte.R = 1 then { pte with LRU := 0, R2 := 1, R := 0 }
  else if pte.LRU < 3 then { pte with LRU := pte.LRU + 1 }
  else pte

namespace PageTableManager

/-- `PageTableManager::invalidatePT`, on a table with any contents. -/
def invalidatePT (s : PageTableManager) : PageTableManager :=
  { s with pt := fun i => { s.pt i with AVA := PTE_AVA_MASK, V := 0 } }

/-- The entries of a group, lowest first. -/
def group (pteg : Nat) : List Nat := (List.range PTEG_SIZE).map (pteg * PTEG_SIZE + ·)

/-- `PageTableManager::findPTE` in a group. -/
def findPTEIn (s : PageTableManager) (vAddr pteg : Nat) : Option Nat :=
  (group pteg).find? fun i => (s.pt i).AVA = vAddr >>> 23

def findPTE (s : PageTableManager) (vAddr : Nat) : Option Nat :=
  s.findPTEIn vAddr (findPTEG vAddr)

def findEmptyPTE (s : PageTableManager) (pteg : Nat) : Option Nat :=
  (group pteg).find? fun i => (s.pt i).V = 0

/-- Whether an entry maps a page of the idle task. -/
def isIdleTask (s : PageTableManager) (i : Nat) : Bool :=
  (s.pt i).PN = s.ivIdleTaskPN || (s.pt i).PN = add64 s.ivIdleTaskPN 1

/-- `PageTableManager::findOldPTE`: the entry with the highest use count, but
not the one of the idle task. -/
def findOldPTE (s : PageTableManager) (pteg : Nat) : Nat :=
  (group pteg).foldl (fun old i =>
    if s.isIdleTask old then i
    else if (s.pt i).LRU > (s.pt old).LRU && !s.isIdleTask i then i
    else old) (pteg * PTEG_SIZE)

/-- Exchange one entry. -/
def setPTE (s : PageTableManager) (i : Nat) (pte : PageTableEntry) : PageTableManager :=
  { s with pt := Function.update s.pt i pte }

/-- `PageTableManager::updateLRUGroup`: the other entries of the group age. -/
def updateLRUGroup (s : PageTableManager) (newPTE : Nat) : PageTableManager :=
  { s with pt := fun i =>
      if i / PTEG_SIZE = newPTE / PTEG_SIZE ∧ i ≠ newPTE then updateLRUEntry (s.pt i)
      else s.pt i }

/-- `PageTableManager::pushUsageStats`: the usage bits are handed over and
cleared, except in a table for tests. -/
def pushUsageStats (s : PageTableManager) (i : Nat) : PageTableManager :=
  if s.ivTABLE then s else s.setPTE i { s.pt i with R := 0, R2 := 0 }

/-- `PageTableManager::writePTE` with `i_valid`: it must not steal a valid
entry. -/
def writePTE (s : PageTableManager) (pte : PageTableEntry) (dest : Nat) :
    Option PageTableManager :=
  if (s.pt dest).V = 1 ∧ pte.AVA ≠ (s.pt dest).AVA then none
  else
    let pte := if s.ivTABLE then { pte with V := 1 } else { pte with LRU := 0, V := 1 }
    some ((s.setPTE dest pte).updateLRUGroup dest)

/-- `PageTableManager::delEntry` of an entry: `writePTE` without `i_valid`
clears the valid bit. -/
def delPTE (s : PageTableManager) (i : Nat) : PageTableManager :=
  if (s.pt i).V ≠ 0 then (s.setPTE i { s.pt i with V := 0 }).pushUsageStats i else s

/-- The first part of `_addEntry`: the entry to write and the usage bits of
the new contents.  `pte` is the local variable `pte_data`. -/
def chooseSlot (s : PageTableManager) (vAddr page : Nat) (pte : PageTableEntry) :
    Option (PageTableManager × Nat × PageTableEntry) :=
  let pteg := findPTEG vAddr
  match s.findPTEIn vAddr pteg with
  | none =>
    match s.findEmptyPTE pteg with
    | some slot => some (s, slot, { pte with R := 0, LRU := 0 })
    | none =>
      let slot := s.findOldPTE pteg
      some (s.delPTE slot, slot, { pte with R := 0, LRU := 0 })
  | some slot =>
    if (s.pt slot).V = 1 then
      if page ≠ (s.pt slot).PN then none else some (s, slot, pte)
    else some (s, slot, { pte with R := 0, LRU := 0 })

/-- `PageTableManager::_addEntry`.  `pteData` is what the uninitialised local
variable `pte_data` holds. -/
def addEntryPage (s : PageTableManager) (vAddr page accessType : Nat)
    (pteData : PageTableEntry) : Option PageTableManager :=
  match s.chooseSlot (alignPageDown vAddr) page (setupDefaultPTE pteData) with
  | none => none
  | some (s, slot, pte) =>
    s.writePTE { setAccessBits pte accessType with
      AVA := (vAddr >>> 23) % 2 ^ 45, PN := page % 2 ^ 45 } slot

/-- The page `addEntry` maps: the HRMOR is applied unless this is a MMIO. -/
def realPage (hrmor page accessType : Nat) : Nat :=
  if accessType ≠ CI_ACCESS ∧ ¬ hasFlag accessType BYPASS_HRMOR then page ||| (hrmor / PAGESIZE)
  else page

def addEntry (s : PageTableManager) (hrmor vAddr page accessType : Nat)
    (pteData : PageTableEntry) : Option PageTableManager :=
  s.addEntryPage vAddr (realPage hrmor page accessType) accessType pteData

def delEntry (s : PageTableManager) (vAddr : Nat) : PageTableManager :=
  match s.findPTE vAddr with
  | some i => s.delPTE i
  | none => s

/-- The loop of `_delRangeVA`.  The address wraps at the end of the address
space, so that after `2 ^ 52` rounds the loop is back at its start and does
not end. -/
def delRangeVALoop : Nat → PageTableManager → Nat → Nat → Option PageTableManager
  | 0, _, _, _ => none
  | fuel + 1, s, va, vAddrFinish =>
    if va < vAddrFinish then
      delRangeVALoop fuel (s.delEntry va) (add64 va PAGESIZE) vAddrFinish
    else some s

def delRangeVA (s : PageTableManager) (vAddrStart vAddrFinish : Nat) :
    Option PageTableManager :=
  delRangeVALoop (2 ^ 52) s vAddrStart vAddrFinish

/-- One round of the loop of `_delRangePN`. -/
def delIfPN (pnStart pnFinish : Nat) (s : PageTableManager) (x : Nat) : PageTableManager :=
  if (s.pt x).V = 1 ∧ (s.pt x).PN ≥ pnStart ∧ (s.pt x).PN ≤ pnFinish then s.delPTE x else s

def delRangePN (s : PageTableManager) (hrmor pnStart pnFinish : Nat) (applyHRMOR : Bool) :
    PageTableManager :=
  let pnStart := if applyHRMOR then pnStart ||| (hrmor / PAGESIZE) else pnStart
  let pnFinish := if applyHRMOR then pnFinish ||| (hrmor / PAGESIZE) else pnFinish
  (List.range (PTEG_COUNT * PTEG_SIZE)).foldl (delIfPN pnStart pnFinish) s

/-- `PageTableManager::flush`: the usage bits of every valid entry are handed
over. -/
def flush (s : PageTableManager) : PageTableManager :=
  if s.ivTABLE then s
  else
    (List.range (PTEG_COUNT * PTEG_SIZE)).foldl
      (fun s x => if (s.pt x).V ≠ 0 then s.pushUsageStats x else s) s

/-- The hardware sets the reference bit of an entry. -/
def reference (s : PageTableManager) (i : Nat) : PageTableManager :=
  s.setPTE i { s.pt i with R := 1 }

end PageTableManager

end Hostboot.PtMgr
