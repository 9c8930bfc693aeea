import Hostboot.Lib.Run
import Hostboot.PtMgr.Translations

/-!
# The device segment

`DeviceSegment` of `src/kernel/devicesegment.C` maps devices into a segment of
1 TB of the virtual address space.  The segment is cut into 32 windows of
32 GB, and `iv_mmioMap` says which device is in each window.

Two functions read that table.  `handlePageFault` puts the translation of an
address into the hardware page table, and `findPhysicalAddress` reports it.
This module states when the two agree.

An address is a 64-bit word, and a sum of two of them wraps.  A slot of the
table is known by its index.
-/

namespace Hostboot.Vmm.Device

open Hostboot.Lib Hostboot.PtMgr

/-- `DeviceSegment::MMIO_MAP_DEVICES`. -/
def MMIO_MAP_DEVICES : Nat := 32

/-- `SLBE_s`: a segment has `2 ^ SLBE_s` bytes. -/
def SLBE_s : Nat := 40

/-- `VMM_SEGMENT_SIZE`: 1 TB. -/
def VMM_SEGMENT_SIZE : Nat := 1024 ^ 4

/-- `THIRTYTWO_GB` (`src/include/sys/mmio.h`). -/
def THIRTYTWO_GB : Nat := 32 * 1024 ^ 3

/-- `-EFAULT` as a `uint64_t`. -/
def EFAULT_RC : Nat := 2 ^ 64 - 14

/-- `-EINVAL`. -/
def EINVAL_RC : Int := -22

/-- A segment number `DeviceSegment::init` accepts. -/
abbrev SegId : Type := { segId : Nat // 2 ≤ segId ∧ segId ≤ 10 }

/-- `DeviceSegment::devSegData`. -/
structure DevSegData where
  /-- Real address of the device. -/
  addr : Nat
  /-- The device is mapped cacheable. -/
  no_ci : Bool
  guarded : Bool
  /-- Bytes of the device, in a field of 62 bits. -/
  size : Nat
  deriving DecidableEq, Repr

/-- The state of a `DeviceSegment`. -/
structure DeviceSegment where
  segId : SegId
  ivMmioMap : Nat → DevSegData

/-- A call into `PageTableManager`. -/
inductive PtCall where
  | addEntry (vAddr page accessType : Nat)
  | delRangePN (pnStart pnFinish : Nat) (applyHRMOR : Bool)
  deriving DecidableEq, Repr

namespace DeviceSegment

/-- The constructor: no window has a device. -/
def init (segId : SegId) : DeviceSegment :=
  { segId := segId, ivMmioMap := fun _ => ⟨0, false, false, 0⟩ }

/-- `Segment::getBaseAddress`. -/
def getBaseAddress (s : DeviceSegment) : Nat := s.segId.1 * VMM_SEGMENT_SIZE

/-- The test for an address outside the segment. -/
def outside (s : DeviceSegment) (addr : Nat) : Prop :=
  addr < s.getBaseAddress ∨ addr ≥ s.getBaseAddress + 2 ^ SLBE_s

instance (s : DeviceSegment) (addr : Nat) : Decidable (s.outside addr) :=
  inferInstanceAs (Decidable (_ ∨ _))

/-- `DeviceSegment::handlePageFault`: the answer, and the call into the page
table. -/
def handlePageFault (s : DeviceSegment) (addr : Nat) : Bool × Option PtCall :=
  if s.outside addr then (false, none)
  else
    let segmentEa := addr - s.getBaseAddress
    let idx := segmentEa / (2 ^ SLBE_s / MMIO_MAP_DEVICES)
    let deviceOffset := segmentEa - idx * 2 ^ SLBE_s / MMIO_MAP_DEVICES
    if deviceOffset ≥ (s.ivMmioMap idx).size then (false, none)
    else
      (true, some (.addEntry (addr / PAGESIZE * PAGESIZE)
        (add64 (s.ivMmioMap idx).addr deviceOffset / PAGESIZE)
        (if (s.ivMmioMap idx).no_ci then
          BYPASS_HRMOR ||| WRITABLE ||| (if (s.ivMmioMap idx).guarded then GUARDED else 0)
        else CI_ACCESS)))

/-- Whether a slot of the table has no device. -/
def slotFree (s : DeviceSegment) (i : Nat) : Bool :=
  (s.ivMmioMap i).addr = 0 && (s.ivMmioMap i).size = 0

/-- `DeviceSegment::devMap`: the virtual address of the device, or none. -/
def devMap (s : DeviceSegment) (ra devDataSize : Nat) (nonCI guarded : Bool) :
    DeviceSegment × Option Nat :=
  if devDataSize ≤ THIRTYTWO_GB then
    match (List.range MMIO_MAP_DEVICES).find? s.slotFree with
    | some i =>
      ({ s with ivMmioMap :=
          Function.update s.ivMmioMap i ⟨ra, nonCI, guarded, devDataSize % 2 ^ 62⟩ },
        some (i * (2 ^ SLBE_s / MMIO_MAP_DEVICES) + s.getBaseAddress))
    | none => (s, none)
  else (s, none)

/-- `DeviceSegment::devUnmap`: the return code, and the call into the page
table. -/
def devUnmap (s : DeviceSegment) (ea : Nat) : DeviceSegment × Int × Option PtCall :=
  if s.outside ea then (s, EINVAL_RC, none)
  else
    let idx := (ea - s.getBaseAddress) / (2 ^ SLBE_s / MMIO_MAP_DEVICES)
    if s.slotFree idx then (s, EINVAL_RC, none)
    else
      let data := s.ivMmioMap idx
      ({ s with ivMmioMap :=
          Function.update s.ivMmioMap idx { data with addr := 0, size := 0, guarded := false } },
        0, some (.delRangePN (data.addr / PAGESIZE) (add64 data.addr data.size / PAGESIZE) false))

def findPhysicalAddress (s : DeviceSegment) (vaddr : Nat) : Nat :=
  if s.outside vaddr then EFAULT_RC
  else
    let segmentEa := vaddr - s.getBaseAddress
    let idx := segmentEa / (2 ^ SLBE_s / MMIO_MAP_DEVICES)
    if s.slotFree idx then EFAULT_RC
    else
      let offset := segmentEa - idx * (2 ^ SLBE_s / MMIO_MAP_DEVICES)
      add64 (s.ivMmioMap idx).addr offset

end DeviceSegment

/-- The calls that change the table. -/
inductive Op where
  | devMap (ra devDataSize : Nat) (nonCI guarded : Bool)
  | devUnmap (ea : Nat)
  deriving DecidableEq, Repr

/-- One call. -/
def DeviceSegment.step (s : DeviceSegment) : Op → DeviceSegment
  | .devMap ra devDataSize nonCI guarded => (s.devMap ra devDataSize nonCI guarded).1
  | .devUnmap ea => (s.devUnmap ea).1

/-- The segment after a sequence of calls. -/
def DeviceSegment.exec (s : DeviceSegment) (ops : List Op) : DeviceSegment :=
  ops.foldl DeviceSegment.step s

/-! ## The window of an address -/

namespace DeviceSegment

/-- The slot of the window of an address of the segment. -/
def slot (s : DeviceSegment) (addr : Nat) : Nat :=
  (addr - s.getBaseAddress) / THIRTYTWO_GB

/-- The offset of an address in its window. -/
def offset (s : DeviceSegment) (addr : Nat) : Nat :=
  (addr - s.getBaseAddress) % THIRTYTWO_GB

/-- The real address that the window of an address gives it. -/
def target (s : DeviceSegment) (addr : Nat) : Nat :=
  add64 (s.ivMmioMap (s.slot addr)).addr (s.offset addr)

theorem window_size : 2 ^ SLBE_s / MMIO_MAP_DEVICES = THIRTYTWO_GB := by decide

theorem offset_eq (s : DeviceSegment) (addr : Nat) :
    addr - s.getBaseAddress - s.slot addr * THIRTYTWO_GB = s.offset addr := by
  unfold slot offset
  have hdiv := Nat.div_add_mod' (addr - s.getBaseAddress) THIRTYTWO_GB
  omega

/-- `handlePageFault` multiplies before it divides, which gives the same
offset. -/
theorem offset_eq_of_mul (s : DeviceSegment) (addr : Nat) :
    addr - s.getBaseAddress - s.slot addr * 2 ^ SLBE_s / MMIO_MAP_DEVICES = s.offset addr := by
  have hmul : s.slot addr * 2 ^ SLBE_s / MMIO_MAP_DEVICES = s.slot addr * THIRTYTWO_GB := by
    have hsize : 2 ^ SLBE_s = THIRTYTWO_GB * MMIO_MAP_DEVICES := by decide
    rw [hsize, ← Nat.mul_assoc]
    exact Nat.mul_div_cancel _ (by decide)
  rw [hmul]
  exact s.offset_eq addr

variable {s : DeviceSegment} {ea : Nat}

/-- `handlePageFault` answers for the addresses below the size of the device
in their window. -/
theorem handlePageFault_eq {addr : Nat} (hin : ¬ s.outside addr) :
    s.handlePageFault addr =
      if s.offset addr < (s.ivMmioMap (s.slot addr)).size then
        (true, some (.addEntry (addr / PAGESIZE * PAGESIZE) (s.target addr / PAGESIZE)
          (if (s.ivMmioMap (s.slot addr)).no_ci then
            BYPASS_HRMOR ||| WRITABLE |||
              (if (s.ivMmioMap (s.slot addr)).guarded then GUARDED else 0)
          else CI_ACCESS)))
      else (false, none) := by
  have hslot : (addr - s.getBaseAddress) / (2 ^ SLBE_s / MMIO_MAP_DEVICES) = s.slot addr := by
    rw [window_size]
    rfl
  rw [handlePageFault, if_neg hin]
  simp only [hslot, s.offset_eq_of_mul addr]
  by_cases hlt : s.offset addr < (s.ivMmioMap (s.slot addr)).size
  · rw [if_neg (by omega), if_pos hlt]
    rfl
  · rw [if_pos (by omega), if_neg hlt]

/-- `findPhysicalAddress` answers for every address in the window of a
device. -/
theorem findPhysicalAddress_eq {addr : Nat} (hin : ¬ s.outside addr) :
    s.findPhysicalAddress addr =
      if s.slotFree (s.slot addr) then EFAULT_RC else s.target addr := by
  have hslot : (addr - s.getBaseAddress) / (2 ^ SLBE_s / MMIO_MAP_DEVICES) = s.slot addr := by
    rw [window_size]
    rfl
  rw [findPhysicalAddress, if_neg hin]
  simp only [hslot]
  rw [window_size, s.offset_eq addr]
  rfl

theorem size_of_slotFree {i : Nat} (hfree : s.slotFree i = true) :
    (s.ivMmioMap i).size = 0 := by
  unfold slotFree at hfree
  simp only [Bool.and_eq_true, decide_eq_true_eq] at hfree
  exact hfree.2

/-! ## The window of a device -/

/-- The address lies in the window of a device. -/
def Holds (s : DeviceSegment) (ea : Nat) : Prop :=
  ¬ s.outside ea ∧ s.slotFree (s.slot ea) = false

theorem holds_devMap {s' : DeviceSegment} {ra size : Nat} {nonCI guarded : Bool}
    (hsize : size % 2 ^ 62 ≠ 0) (hmap : s.devMap ra size nonCI guarded = (s', some ea)) :
    s'.Holds ea := by
  unfold devMap at hmap
  split_ifs at hmap
  · split at hmap
    · rename_i i hfind
      have hi : i < MMIO_MAP_DEVICES := List.mem_range.mp (List.mem_of_find?_eq_some hfind)
      obtain ⟨hs', hea⟩ := Prod.mk.inj hmap
      have hbase : s'.getBaseAddress = s.getBaseAddress := by rw [← hs']; rfl
      have hdata : (s'.ivMmioMap i).size = size % 2 ^ 62 := by
        rw [← hs']
        show (Function.update s.ivMmioMap i _ i).size = _
        rw [Function.update_self]
      rw [window_size, Option.some.injEq] at hea
      have hslot : s'.slot ea = i := by
        rw [slot, hbase, ← hea, Nat.add_sub_cancel]
        exact Nat.mul_div_cancel i (by decide)
      refine ⟨?_, ?_⟩
      · unfold outside
        rw [hbase]
        unfold SLBE_s
        unfold MMIO_MAP_DEVICES at hi
        unfold THIRTYTWO_GB at hea
        omega
      · rw [slotFree, hslot, hdata, decide_eq_false hsize, Bool.and_false]
    · cases hmap
  · cases hmap

theorem Holds.devUnmap (h : s.Holds ea) :
    (s.devUnmap ea).2.1 = 0 := by
  obtain ⟨hin, hused⟩ := h
  rw [slot] at hused
  simp only [DeviceSegment.devUnmap, if_neg hin, window_size]
  rw [if_neg (Bool.eq_false_iff.mp hused)]

theorem Holds.update {i : Nat} (h : s.Holds ea) (hne : i ≠ s.slot ea) (data : DevSegData) :
    Holds { s with ivMmioMap := Function.update s.ivMmioMap i data } ea := by
  have hbase : getBaseAddress { s with ivMmioMap := Function.update s.ivMmioMap i data }
      = s.getBaseAddress := rfl
  unfold Holds outside slotFree slot at *
  rw [hbase]
  simp only [Function.update_of_ne hne.symm]
  exact h

theorem Holds.devMap_other (h : s.Holds ea) (ra size : Nat) (nonCI guarded : Bool) :
    (s.devMap ra size nonCI guarded).1.Holds ea := by
  unfold devMap
  split_ifs
  · split
    · rename_i i hfind
      refine h.update ?_ _
      rintro rfl
      have hused := h.2
      rw [List.find?_some hfind] at hused
      cases hused
    · exact h
  · exact h

theorem Holds.devUnmap_other {ea' : Nat} (h : s.Holds ea)
    (hne : ¬ s.outside ea' → s.slot ea' ≠ s.slot ea) : (s.devUnmap ea').1.Holds ea := by
  simp only [DeviceSegment.devUnmap, window_size]
  split_ifs with hout
  · exact h
  · exact h
  · exact h.update (hne hout) _

end DeviceSegment

/-! ## Agreement -/

/-- `findPhysicalAddress` succeeds exactly when `handlePageFault` installs an
entry, and the page it reports is the installed one. -/
def Agrees (s : DeviceSegment) (addr : Nat) : Prop :=
  (s.findPhysicalAddress addr ≠ EFAULT_RC ↔ (s.handlePageFault addr).1 = true) ∧
    ∀ vAddr page accessType,
      (s.handlePageFault addr).2 = some (.addEntry vAddr page accessType) →
        vAddr = addr / PAGESIZE * PAGESIZE ∧ page = s.findPhysicalAddress addr / PAGESIZE

/-- An address in the window of a device is below the size of the device,
unless its real address is the error code, and then it is not. -/
def Within (s : DeviceSegment) (addr : Nat) : Prop :=
  ¬ s.outside addr → s.slotFree (s.slot addr) = false →
    (s.offset addr < (s.ivMmioMap (s.slot addr)).size ↔ s.target addr ≠ EFAULT_RC)

/-- In every segment the two functions agree at the addresses that are within
their device, and at no others. -/
theorem agrees_iff (s : DeviceSegment) (addr : Nat) : Agrees s addr ↔ Within s addr := by
  by_cases hout : s.outside addr
  · -- both functions refuse an address outside the segment
    have hfind : s.findPhysicalAddress addr = EFAULT_RC := by
      rw [DeviceSegment.findPhysicalAddress, if_pos hout]
    have hfault : s.handlePageFault addr = (false, none) := by
      rw [DeviceSegment.handlePageFault, if_pos hout]
    simp [Agrees, Within, hfind, hfault, hout]
  · rw [Agrees, Within, DeviceSegment.findPhysicalAddress_eq hout,
      DeviceSegment.handlePageFault_eq hout]
    cases hfree : s.slotFree (s.slot addr) with
    | true =>
      have hsize := DeviceSegment.size_of_slotFree hfree
      simp [hsize]
    | false =>
      by_cases hlt : s.offset addr < (s.ivMmioMap (s.slot addr)).size
      · simp only [hlt, hout, if_true, Bool.false_eq_true, if_false, not_false_eq_true,
          forall_const, true_iff, Option.some.injEq, PtCall.addEntry.injEq, iff_true]
        constructor
        · intro hagree
          exact hagree.1
        · intro hne
          refine ⟨hne, ?_⟩
          intro vAddr page accessType hcall
          exact ⟨hcall.1.symm, hcall.2.1.symm⟩
      · simp [hlt, hout]

/-- After every sequence of `devMap` and `devUnmap` the two translations agree
at exactly the addresses that are within their device. -/
theorem translation_of_run (segId : SegId) (ops : List Op) (addr : Nat) :
    Agrees ((DeviceSegment.init segId).exec ops) addr ↔
      Within ((DeviceSegment.init segId).exec ops) addr :=
  agrees_iff _ addr

/-- A device of one page: the address behind the page has a translation in
`findPhysicalAddress`, and a page fault at it is refused. -/
theorem translation_behind_device :
    ¬ Agrees ((DeviceSegment.init ⟨2, by decide⟩).exec [.devMap 0x1000 PAGESIZE false false])
      (2 * VMM_SEGMENT_SIZE + PAGESIZE) := by
  intro hagree
  have hmapped := hagree.1.1 (by decide)
  exact absurd hmapped (by decide)

end Hostboot.Vmm.Device
