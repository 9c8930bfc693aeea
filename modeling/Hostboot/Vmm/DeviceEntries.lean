import Hostboot.Vmm.DeviceSegment

/-!
# Devices in the page table

The page faults of `DeviceSegment` fill a page table that the other segments
change too, and `devUnmap` is to take the entries of its window out again.

`current_of_run` is the result.  Every valid entry for a page of the segment is
the one that a page fault at the page would install now, so `devUnmap` leaves no
entry of its window behind for the device that gets the window next.
-/

namespace Hostboot.Vmm.Device

open Hostboot.Lib Hostboot.PtMgr

/-! ## The calls into the page table -/

/-- The effect of a call on the page table. -/
def PtCall.apply (hrmor : Nat) (pteData : PageTableEntry) (pt : PageTableManager) :
    PtCall → Option PageTableManager
  | .addEntry vAddr page accessType => pt.addEntry hrmor vAddr page accessType pteData
  | .delRangePN pnStart pnFinish applyHRMOR =>
    some (pt.delRangePN hrmor pnStart pnFinish applyHRMOR)

/-- The access type of a device. -/
def DevSegData.accessType (data : DevSegData) : Nat :=
  if data.no_ci then BYPASS_HRMOR ||| WRITABLE ||| (if data.guarded then GUARDED else 0)
  else CI_ACCESS

/-- The HRMOR does not move a device: its access is cache-inhibited or bypasses
the HRMOR. -/
theorem realPage_device (hrmor page : Nat) (data : DevSegData) :
    PageTableManager.realPage hrmor page data.accessType = page := by
  unfold PageTableManager.realPage DevSegData.accessType
  apply if_neg
  cases data.no_ci <;> cases data.guarded <;> decide

theorem delRangePN_invalid {pt : PageTableManager} {hrmor pnStart pnFinish i : Nat}
    (hi : i < PTEG_COUNT * PTEG_SIZE) (hstart : pnStart ≤ (pt.pt i).PN)
    (hfinish : (pt.pt i).PN ≤ pnFinish) :
    ((pt.delRangePN hrmor pnStart pnFinish false).pt i).V ≠ 1 := by
  obtain ⟨before, after, hsplit⟩ := List.append_of_mem (List.mem_range.mpr hi)
  have hfades := PageTableManager.fades_foldl (PageTableManager.fades_delIfPN pnStart pnFinish)
  simp only [PageTableManager.delRangePN, Bool.false_eq_true, if_false]
  rw [hsplit, List.foldl_append, List.foldl_cons]
  have hpn := (hfades before pt i).same.pn
  generalize before.foldl (PageTableManager.delIfPN pnStart pnFinish) pt = pt1 at hpn ⊢
  -- The round of the entry clears its valid bit, and no later one sets it.
  have hround : ((PageTableManager.delIfPN pnStart pnFinish pt1 i).pt i).V ≠ 1 := by
    unfold PageTableManager.delIfPN
    split
    · rw [pt1.delPTE_invalid i]
      decide
    · rename_i hnot
      exact fun hv => hnot ⟨hv, by rwa [hpn], by rwa [hpn]⟩
  rcases (hfades after (PageTableManager.delIfPN pnStart pnFinish pt1 i) i).valid with hv | hv
  · rw [hv]
    exact hround
  · rw [hv]
    decide

/-! ## Page faults -/

theorem handlePageFault_call (s : DeviceSegment) (addr : Nat) :
    (s.handlePageFault addr).2 =
      if ¬ s.outside addr ∧ s.offset addr < (s.ivMmioMap (s.slot addr)).size then
        some (.addEntry (alignPageDown addr)
          (add64 (s.ivMmioMap (s.slot addr)).addr (s.offset addr) / PAGESIZE)
          (s.ivMmioMap (s.slot addr)).accessType)
      else none := by
  have halign : addr / PAGESIZE * PAGESIZE = alignPageDown addr := by
    unfold alignPageDown PAGESIZE
    omega
  by_cases hout : s.outside addr
  · rw [DeviceSegment.handlePageFault, if_pos hout, if_neg (fun h => h.1 hout)]
  · rw [DeviceSegment.handlePageFault_eq hout, halign]
    by_cases hlt : s.offset addr < (s.ivMmioMap (s.slot addr)).size
    · rw [if_pos hlt]
      exact (if_pos ⟨hout, hlt⟩).symm
    · rw [if_neg hlt]
      exact (if_neg fun h => hlt h.2).symm

theorem handlePageFault_update {s : DeviceSegment} {addr i : Nat} (data : DevSegData)
    (hi : s.slot addr ≠ i) :
    (DeviceSegment.handlePageFault
      { s with ivMmioMap := Function.update s.ivMmioMap i data } addr).2 =
        (s.handlePageFault addr).2 := by
  have hsame : Function.update s.ivMmioMap i data (s.slot addr) = s.ivMmioMap (s.slot addr) :=
    Function.update_of_ne hi _ _
  rw [handlePageFault_call s, ← hsame]
  exact handlePageFault_call _ addr

/-! ## The entries of the segment -/

/-- Every valid entry for a page of the segment is the one that a page fault
would install now. -/
def Current (s : DeviceSegment) (pt : PageTableManager) : Prop :=
  ∀ i va, va % PAGESIZE = 0 → ¬ s.outside va → Maps pt i va → ∃ addr accessType,
    (s.handlePageFault addr).2 = some (.addEntry va (pt.pt i).PN accessType) ∧
      HasAccess (pt.pt i) accessType

section Steps

variable {s : DeviceSegment} {pt pt' : PageTableManager} {i va : Nat}

theorem Current.faded (h : Current s pt) (hfaded : Faded (pt.pt i) (pt'.pt i))
    (hal : va % PAGESIZE = 0) (hin : ¬ s.outside va) (hmaps : Maps pt' i va) :
    ∃ addr accessType, (s.handlePageFault addr).2 =
      some (.addEntry va (pt'.pt i).PN accessType) ∧ HasAccess (pt'.pt i) accessType := by
  obtain ⟨hv, hgroup, hava⟩ := hmaps
  have hbefore : Maps pt i va := by
    refine ⟨?_, hgroup, hfaded.same.ava.symm.trans hava⟩
    rcases hfaded.valid with hv' | hv' <;> omega
  obtain ⟨addr, accessType, hfault, haccess⟩ := h i va hal hin hbefore
  refine ⟨addr, accessType, ?_, haccess.faded hfaded⟩
  rw [hfaded.same.pn]
  exact hfault

theorem Current.fades (h : Current s pt) (hfades : Fades pt pt') : Current s pt' :=
  fun i _ hal hin hmaps => h.faded (hfades i) hal hin hmaps

/-- One entry is added, which a page fault would install if it is one of the
segment. -/
theorem Current.added {page accessType slot : Nat} (h : Current s pt)
    (hadded : Added pt pt' va page accessType slot)
    (hnew : ¬ s.outside (alignPageDown va) → ∃ addr, (s.handlePageFault addr).2 =
      some (.addEntry (alignPageDown va) (page % 2 ^ 45) accessType)) : Current s pt' := by
  intro i va' hal hin hmaps
  by_cases hi : i = slot
  · subst hi
    obtain rfl : va' = alignPageDown va := by
      apply eq_of_findPTEG hal (alignPageDown_mod va)
      · rw [findPTEG_alignPageDown, ← hmaps.2.1, hadded.group]
      · rw [shiftRight_alignPageDown, ← hmaps.2.2, hadded.ava]
    obtain ⟨addr, hfault⟩ := hnew hin
    refine ⟨addr, accessType, ?_, hadded.access⟩
    rw [hadded.pn]
    exact hfault
  · exact h.faded (hadded.others i hi) hal hin hmaps

end Steps

/-! ## Runs -/

/-- The segment and the page table. -/
structure Sys where
  segment : DeviceSegment
  table : PageTableManager

/-- A call of the segment, or one that changes the page table for another
segment. -/
inductive Act where
  | devMap (ra devDataSize : Nat) (nonCI guarded : Bool)
  | devUnmap (ea : Nat)
  | fault (addr : Nat)
  | other (op : PtMgr.Op)

/-- The call adds no entry for the segment. -/
def Foreign (s : DeviceSegment) : PtMgr.Op → Prop
  | .addEntry _ vAddr _ _ _ => s.outside vAddr
  | _ => True

/-- One call.  The real pages of a device fit the field of an entry.  A page
fault or `devUnmap` that is refused changes nothing and has no step. -/
inductive Step (s : Sys) : Act → Sys → Prop
  | devMap {ra size : Nat} {nonCI guarded : Bool} (hra : ra + size ≤ 2 ^ 57) :
      Step s (.devMap ra size nonCI guarded)
        { s with segment := (s.segment.devMap ra size nonCI guarded).1 }
  | devUnmap {ea hrmor : Nat} {pteData : PageTableEntry} {call : PtCall} {table : PageTableManager}
      (hcall : (s.segment.devUnmap ea).2.2 = some call)
      (happly : call.apply hrmor pteData s.table = some table) :
      Step s (.devUnmap ea) ⟨(s.segment.devUnmap ea).1, table⟩
  | fault {addr hrmor : Nat} {pteData : PageTableEntry} {call : PtCall} {table : PageTableManager}
      (hcall : (s.segment.handlePageFault addr).2 = some call)
      (happly : call.apply hrmor pteData s.table = some table) :
      Step s (.fault addr) { s with table := table }
  | other {op : PtMgr.Op} {table : PageTableManager} (hforeign : Foreign s.segment op)
      (hstep : PtMgr.Step s.table op table) : Step s (.other op) { s with table := table }

structure Inv (s : Sys) : Prop where
  fits : ∀ i, (s.segment.ivMmioMap i).addr + (s.segment.ivMmioMap i).size ≤ 2 ^ 57
  current : Current s.segment s.table

section Invariant

variable {s s' : Sys} {segment : DeviceSegment} {table : PageTableManager} {hrmor : Nat}
  {pteData : PageTableEntry} {call : PtCall}

theorem slot_ne_of_slotFree {addr i : Nat} (hcall : (segment.handlePageFault addr).2 = some call)
    (hfree : segment.slotFree i = true) : segment.slot addr ≠ i := by
  rintro rfl
  have hsize := DeviceSegment.size_of_slotFree hfree
  rw [handlePageFault_call, if_neg (by omega)] at hcall
  exact absurd hcall (by simp)

theorem Inv.update {idx : Nat} {data : DevSegData} (h : Inv s)
    (hdata : data.addr + data.size ≤ 2 ^ 57) (hfades : Fades s.table table)
    (hgone : ∀ i va addr accessType, Maps table i va → (s.segment.handlePageFault addr).2 =
      some (.addEntry va (table.pt i).PN accessType) → s.segment.slot addr ≠ idx) :
    Inv ⟨{ s.segment with ivMmioMap := Function.update s.segment.ivMmioMap idx data }, table⟩ := by
  refine ⟨fun j => ?_, fun i va hal hin hmaps => ?_⟩
  · by_cases hj : j = idx
    · simpa [hj] using hdata
    · simpa [hj] using h.fits j
  · obtain ⟨addr, accessType, hfault, haccess⟩ := h.current.fades hfades i va hal hin hmaps
    have hslot := hgone i va addr accessType hmaps hfault
    exact ⟨addr, accessType, (handlePageFault_update data hslot).trans hfault, haccess⟩

theorem Inv.devMap {ra size : Nat} {nonCI guarded : Bool} (h : Inv s) (hra : ra + size ≤ 2 ^ 57) :
    Inv { s with segment := (s.segment.devMap ra size nonCI guarded).1 } := by
  unfold DeviceSegment.devMap
  split_ifs
  · cases hfind : (List.range MMIO_MAP_DEVICES).find? s.segment.slotFree with
    | none => exact h
    | some i =>
      have hle := Nat.mod_le size (2 ^ 62)
      have hdata : ra + size % 2 ^ 62 ≤ 2 ^ 57 := by omega
      exact h.update hdata (Fades.refl _) fun _ _ _ _ _ hfault =>
        slot_ne_of_slotFree hfault (List.find?_some hfind)
  · exact h

/-- `devUnmap` clears a window and deletes the entries of its real pages. -/
theorem devUnmap_cases {ea : Nat} (hcall : (segment.devUnmap ea).2.2 = some call) :
    ∃ idx, (segment.devUnmap ea).1 = { segment with
        ivMmioMap := Function.update segment.ivMmioMap idx
          { segment.ivMmioMap idx with addr := 0, size := 0, guarded := false } } ∧
      call = .delRangePN ((segment.ivMmioMap idx).addr / PAGESIZE)
        (add64 (segment.ivMmioMap idx).addr (segment.ivMmioMap idx).size / PAGESIZE) false := by
  by_cases hout : segment.outside ea
  · rw [DeviceSegment.devUnmap, if_pos hout] at hcall
    exact absurd hcall (by simp)
  · rw [DeviceSegment.devUnmap, if_neg hout] at hcall ⊢
    dsimp only at hcall ⊢
    split at hcall
    · exact absurd hcall (by simp)
    · rename_i hfree
      rw [if_neg hfree]
      exact ⟨_, rfl, (Option.some.inj hcall).symm⟩

theorem Inv.devUnmap {ea : Nat} (h : Inv s) (hcall : (s.segment.devUnmap ea).2.2 = some call)
    (happly : call.apply hrmor pteData s.table = some table) :
    Inv ⟨(s.segment.devUnmap ea).1, table⟩ := by
  obtain ⟨idx, hsegment, rfl⟩ := devUnmap_cases hcall
  replace happly := Option.some.inj happly
  have hfades : Fades s.table table := by
    rw [← happly]
    exact s.table.fades_delRangePN _ _ _ _
  rw [hsegment]
  refine h.update (Nat.zero_le _) hfades fun i va addr accessType hmaps hfault hslot => ?_
  -- An entry of the window is in the range that is deleted.
  rw [handlePageFault_call, hslot, (hfades i).same.pn] at hfault
  split_ifs at hfault with htaken
  simp only [Option.some.injEq, PtCall.addEntry.injEq] at hfault
  have hfits := h.fits idx
  have hi : i < PTEG_COUNT * PTEG_SIZE := by
    have hgroup := findPTEG_lt va
    rw [← hmaps.2.1] at hgroup
    unfold PTEG_COUNT PTEG_SIZE at hgroup ⊢
    omega
  have hvalid := hmaps.1
  rw [← happly] at hvalid
  refine delRangePN_invalid hi ?_ ?_ hvalid
  · rw [← hfault.2.1]
    unfold add64 PAGESIZE
    omega
  · rw [← hfault.2.1]
    unfold add64 PAGESIZE
    omega

theorem Inv.fault {addr : Nat} (h : Inv s) (hcall : (s.segment.handlePageFault addr).2 = some call)
    (happly : call.apply hrmor pteData s.table = some table) : Inv { s with table := table } := by
  have htaken := hcall
  rw [handlePageFault_call] at htaken
  split_ifs at htaken with hwindow
  obtain rfl := Option.some.inj htaken
  unfold PtCall.apply PageTableManager.addEntry at happly
  dsimp only at happly
  rw [realPage_device] at happly
  have hfits := h.fits (s.segment.slot addr)
  have hva : alignPageDown addr < 2 ^ 64 := by
    have hseg := s.segment.segId.2
    have hin := hwindow.1
    unfold DeviceSegment.outside DeviceSegment.getBaseAddress VMM_SEGMENT_SIZE SLBE_s at hin
    unfold alignPageDown
    omega
  have halign : alignPageDown (alignPageDown addr) = alignPageDown addr := by
    unfold alignPageDown PAGESIZE
    omega
  obtain ⟨slot, hadded⟩ := PageTableManager.addEntryPage_added hva happly
  refine ⟨h.fits, h.current.added hadded fun _ => ⟨addr, ?_⟩⟩
  rw [halign, hcall, Nat.mod_eq_of_lt]
  unfold add64 PAGESIZE
  omega

theorem Inv.other {op : PtMgr.Op} (h : Inv s) (hforeign : Foreign s.segment op)
    (hstep : PtMgr.Step s.table op table) : Inv { s with table := table } := by
  refine ⟨h.fits, ?_⟩
  show Current s.segment table
  cases hstep with
  | addEntry hva hadd =>
    obtain ⟨slot, hadded⟩ := PageTableManager.addEntryPage_added hva hadd
    refine h.current.added hadded fun hin => absurd hforeign ?_
    unfold Foreign
    dsimp only
    unfold DeviceSegment.outside DeviceSegment.getBaseAddress VMM_SEGMENT_SIZE SLBE_s at hin ⊢
    unfold alignPageDown PAGESIZE at hin
    omega
  | delEntry => exact h.current.fades (s.table.fades_delEntry _)
  | delRangeVA hdel => exact h.current.fades (PageTableManager.fades_delRangeVALoop hdel)
  | delRangePN => exact h.current.fades (s.table.fades_delRangePN _ _ _ _)
  | flush => exact h.current.fades s.table.fades_flush
  | reference => exact h.current.fades (s.table.fades_reference _)

theorem Inv.step {a : Act} (h : Inv s) (hstep : Step s a s') : Inv s' := by
  cases hstep with
  | devMap hra => exact h.devMap hra
  | devUnmap hcall happly => exact h.devUnmap hcall happly
  | fault hcall happly => exact h.fault hcall happly
  | other hforeign hstep => exact h.other hforeign hstep

end Invariant

/-- In every run from an invalidated page table, each valid entry for a page of
the segment is the one that a page fault would install now, and no page of a
window without a device has one. -/
theorem current_of_run {segId : SegId} {ivTABLE : Bool} {idle : Nat} {pt : Nat → PageTableEntry}
    {acts : List Act} {s : Sys}
    (hrun : Run Step ⟨.init segId, PageTableManager.invalidatePT ⟨ivTABLE, idle, pt⟩⟩ acts s) :
    Current s.segment s.table ∧ ∀ i va, va % PAGESIZE = 0 → ¬ s.segment.outside va →
      s.segment.slotFree (s.segment.slot va) = true → ¬ Maps s.table i va := by
  have hinit : Inv ⟨.init segId, PageTableManager.invalidatePT ⟨ivTABLE, idle, pt⟩⟩ := by
    refine ⟨fun _ => Nat.zero_le _, fun i va _ _ hmaps => absurd hmaps.1 ?_⟩
    exact Nat.zero_ne_one
  have hinv := hrun.invariant hinit fun _ _ _ h hstep => h.step hstep
  refine ⟨hinv.current, fun i va hal hin hfree hmaps => ?_⟩
  obtain ⟨addr, accessType, hfault, -⟩ := hinv.current i va hal hin hmaps
  apply slot_ne_of_slotFree hfault hfree
  -- The fault is in the page, so in its window.
  rw [handlePageFault_call] at hfault
  split_ifs at hfault with hwindow
  simp only [Option.some.injEq, PtCall.addEntry.injEq] at hfault
  rw [← hfault.1]
  have hin := hwindow.1
  unfold DeviceSegment.outside DeviceSegment.getBaseAddress VMM_SEGMENT_SIZE at hin
  unfold DeviceSegment.slot DeviceSegment.getBaseAddress VMM_SEGMENT_SIZE THIRTYTWO_GB
  unfold alignPageDown PAGESIZE
  omega

/-- A device is mapped, and a page fault in its window enters its page. -/
theorem current_of_run_fault :
    ∃ s, Run Step ⟨.init ⟨2, by decide⟩, PageTableManager.invalidatePT ⟨false, 0, fun _ => zeroPTE⟩⟩
        [.devMap 0x1000 0x1000 false false, .fault 0x20000000000] s ∧
      (s.table.pt 16).V = 1 ∧ Current s.segment s.table := by
  have happly : ∃ table, PtCall.apply 0 zeroPTE
      (PageTableManager.invalidatePT ⟨false, 0, fun _ => zeroPTE⟩)
      (.addEntry 0x20000000000 1 CI_ACCESS) = some table ∧ (table.pt 16).V = 1 := ⟨_, rfl, rfl⟩
  obtain ⟨table, happly, hvalid⟩ := happly
  have hmap : Step
      ⟨.init ⟨2, by decide⟩, PageTableManager.invalidatePT ⟨false, 0, fun _ => zeroPTE⟩⟩
      (.devMap 0x1000 0x1000 false false) _ := .devMap (by decide)
  have hrun : ∃ s, Run Step
      ⟨.init ⟨2, by decide⟩, PageTableManager.invalidatePT ⟨false, 0, fun _ => zeroPTE⟩⟩
      [.devMap 0x1000 0x1000 false false, .fault 0x20000000000] s ∧ s.table = table := by
    refine ⟨_, .cons hmap (.cons (.fault ?_ happly) .nil), rfl⟩
    rfl
  obtain ⟨s, hrun, rfl⟩ := hrun
  exact ⟨s, hrun, hvalid, (current_of_run hrun).1⟩

end Hostboot.Vmm.Device
