import Mathlib
import Hostboot.Lib.Run
import Hostboot.PtMgr.Lookup

/-!
# The translations in the page table

`Maps s i va` says that entry `i` is a valid entry for the virtual address
`va`: it stands in the group the hash of `va` selects and has the abbreviated
address of `va`.  This is what the hardware looks for.

`lookup_of_run` is the result about every run from an invalidated table.  An
address has at most one valid entry, `findPTE` answers it, the entry has the
page and the access of the last `addEntry` for the address, and `delEntry`
leaves none.  `findPTE` does not look at the valid bit: for an address without
a valid entry it answers null or the entry that was used for the address
before (`findPTE_after_delEntry`), which `_addEntry` then takes again.

A run is made of the public functions and of the reference bits that the
hardware sets.  An address is a 64-bit word.
-/

namespace Hostboot.PtMgr

open Hostboot.Lib

/-- Entry `i` is a valid entry for the address. -/
def Maps (s : PageTableManager) (i va : Nat) : Prop :=
  (s.pt i).V = 1 ∧ i / PTEG_SIZE = findPTEG va ∧ (s.pt i).AVA = va >>> 23

/-- The access bits of the entry are those `setAccessBits` gives for the access
type. -/
def HasAccess (pte : PageTableEntry) (accessType : Nat) : Prop :=
  ∃ pteData, pte.pp0 = (setAccessBits pteData accessType).pp0 ∧
    pte.WIMG = (setAccessBits pteData accessType).WIMG ∧
    pte.N = (setAccessBits pteData accessType).N ∧
    pte.pp1_2 = (setAccessBits pteData accessType).pp1_2

theorem HasAccess.faded {pte pte' : PageTableEntry} {accessType : Nat}
    (h : HasAccess pte accessType) (hf : Faded pte pte') : HasAccess pte' accessType := by
  obtain ⟨d, h1, h2, h3, h4⟩ := h
  exact ⟨d, hf.same.pp0.trans h1, hf.same.wimg.trans h2, hf.same.n.trans h3,
    hf.same.pp1_2.trans h4⟩

/-! ## Adding an entry -/

/-- What `addEntry` does: one entry of the group gets the translation, and the
others fade.  The entry is the one of the address if the group has one. -/
structure Added (s s' : PageTableManager) (va page accessType slot : Nat) : Prop where
  group : slot / PTEG_SIZE = findPTEG va
  found : (s.pt slot).AVA = va >>> 23 ∨
    ∀ i, i / PTEG_SIZE = findPTEG va → (s.pt i).AVA ≠ va >>> 23
  others : ∀ i, i ≠ slot → Faded (s.pt i) (s'.pt i)
  valid : (s'.pt slot).V = 1
  ava : (s'.pt slot).AVA = va >>> 23
  pn : (s'.pt slot).PN = page % 2 ^ 45
  access : HasAccess (s'.pt slot) accessType

namespace PageTableManager

theorem chooseSlot_spec {s s1 : PageTableManager} {va page slot : Nat} {pte pte1 : PageTableEntry}
    (h : s.chooseSlot va page pte = some (s1, slot, pte1)) :
    Fades s s1 ∧ slot / PTEG_SIZE = findPTEG va ∧
      ((s.pt slot).AVA = va >>> 23 ∨
        ∀ i, i / PTEG_SIZE = findPTEG va → (s.pt i).AVA ≠ va >>> 23) := by
  rw [chooseSlot] at h
  cases hfind : s.findPTEIn va (findPTEG va) with
  | none =>
    simp only [hfind] at h
    have hnone : ∀ i, i / PTEG_SIZE = findPTEG va → (s.pt i).AVA ≠ va >>> 23 :=
      fun i hi => findPTEIn_none hfind hi
    cases hempty : s.findEmptyPTE (findPTEG va) with
    | some i =>
      simp only [hempty, Option.some.injEq, Prod.mk.injEq] at h
      obtain ⟨rfl, rfl, -⟩ := h
      exact ⟨Fades.refl s, (findEmptyPTE_some hempty).1, Or.inr hnone⟩
    | none =>
      simp only [hempty, Option.some.injEq, Prod.mk.injEq] at h
      obtain ⟨rfl, rfl, -⟩ := h
      exact ⟨s.fades_delPTE _, s.findOldPTE_group _, Or.inr hnone⟩
  | some i =>
    simp only [hfind] at h
    obtain ⟨hgroup, hava⟩ := findPTEIn_some hfind
    have hres : Fades s s1 ∧ slot = i := by
      split at h
      · split at h
        · simp at h
        · simp only [Option.some.injEq, Prod.mk.injEq] at h
          obtain ⟨rfl, rfl, -⟩ := h
          exact ⟨Fades.refl s, rfl⟩
      · simp only [Option.some.injEq, Prod.mk.injEq] at h
        obtain ⟨rfl, rfl, -⟩ := h
        exact ⟨Fades.refl s, rfl⟩
    obtain ⟨hfades, rfl⟩ := hres
    exact ⟨hfades, hgroup, Or.inl hava⟩

theorem writePTE_spec {s s' : PageTableManager} {pte : PageTableEntry} {dest : Nat}
    (h : s.writePTE pte dest = some s') :
    Same pte (s'.pt dest) ∧ (s'.pt dest).V = 1 ∧
      ∀ i, i ≠ dest → Faded (s.pt i) (s'.pt i) := by
  rw [writePTE] at h
  split at h
  · simp at h
  · simp only [Option.some.injEq] at h
    subst h
    refine ⟨?_, ?_, fun i hi => ?_⟩
    · simp only [updateLRUGroup, setPTE, ne_eq, not_true_eq_false, and_false, if_false,
        Function.update_self]
      split <;> exact ⟨rfl, rfl, rfl, rfl, rfl, rfl⟩
    · simp only [updateLRUGroup, setPTE, ne_eq, not_true_eq_false, and_false, if_false,
        Function.update_self]
      split <;> rfl
    · have hsame : ((s.setPTE dest (if s.ivTABLE = true then { pte with V := 1 }
          else { pte with LRU := 0, V := 1 })).pt i) = s.pt i := by
        simp [setPTE, hi]
      have hfade := fades_updateLRUGroup (s.setPTE dest (if s.ivTABLE = true then
        { pte with V := 1 } else { pte with LRU := 0, V := 1 })) dest i
      rw [hsame] at hfade
      exact hfade

theorem addEntryPage_added {s s' : PageTableManager} {va page accessType : Nat}
    {pteData : PageTableEntry} (hva : va < 2 ^ 64)
    (h : s.addEntryPage va page accessType pteData = some s') :
    ∃ slot, Added s s' va page accessType slot := by
  rw [addEntryPage] at h
  cases hslot : s.chooseSlot (alignPageDown va) page (setupDefaultPTE pteData) with
  | none => simp [hslot] at h
  | some r =>
    obtain ⟨s1, slot, pte⟩ := r
    simp only [hslot] at h
    obtain ⟨hfades, hgroup, hfound⟩ := chooseSlot_spec hslot
    rw [findPTEG_alignPageDown] at hgroup hfound
    rw [shiftRight_alignPageDown] at hfound
    obtain ⟨hsame, hvalid, hothers⟩ := writePTE_spec h
    have hmod : (va >>> 23) % 2 ^ 45 = va >>> 23 := by
      rw [Nat.shiftRight_eq_div_pow]
      omega
    refine ⟨slot, hgroup, hfound, fun i hi => (hfades i).trans (hothers i hi), hvalid,
      hsame.ava.trans hmod, hsame.pn, ?_⟩
    exact ⟨pte, hsame.pp0, hsame.wimg, hsame.n, hsame.pp1_2⟩

end PageTableManager

/-! ## Runs -/

/-- A call, or a reference bit that the hardware sets.  `pteData` is what the
uninitialised local variable of `_addEntry` holds. -/
inductive Op where
  | addEntry (hrmor vAddr page accessType : Nat) (pteData : PageTableEntry)
  | delEntry (vAddr : Nat)
  | delRangeVA (vAddrStart vAddrFinish : Nat)
  | delRangePN (hrmor pnStart pnFinish : Nat) (applyHRMOR : Bool)
  | flush
  | reference (i : Nat)

/-- One call.  A call that trips a `kassert` or does not return has no step. -/
inductive Step : PageTableManager → Op → PageTableManager → Prop
  | addEntry {s s' : PageTableManager} {hrmor va page accessType : Nat}
      {pteData : PageTableEntry} : va < 2 ^ 64 →
      s.addEntry hrmor va page accessType pteData = some s' →
      Step s (.addEntry hrmor va page accessType pteData) s'
  | delEntry {s : PageTableManager} {va : Nat} : Step s (.delEntry va) (s.delEntry va)
  | delRangeVA {s s' : PageTableManager} {start finish : Nat} :
      s.delRangeVA start finish = some s' → Step s (.delRangeVA start finish) s'
  | delRangePN {s : PageTableManager} {hrmor pnStart pnFinish : Nat} {applyHRMOR : Bool} :
      Step s (.delRangePN hrmor pnStart pnFinish applyHRMOR)
        (s.delRangePN hrmor pnStart pnFinish applyHRMOR)
  | flush {s : PageTableManager} : Step s .flush s.flush
  | reference {s : PageTableManager} {i : Nat} : Step s (.reference i) (s.reference i)

/-- What a call says about the translation of a page-aligned address: the page
and the access type it asks for. -/
def Op.translation (va : Nat) : Op → Option (Nat × Nat)
  | .addEntry hrmor vAddr page accessType _ =>
    if alignPageDown vAddr = va then
      some (PageTableManager.realPage hrmor page accessType, accessType)
    else none
  | _ => none

/-- The page and the access type of the last `addEntry` for a page-aligned
address. -/
def lastAdd (ops : List Op) (va : Nat) : Option (Nat × Nat) :=
  ops.foldl (fun last op => (op.translation va).or last) none

theorem lastAdd_snoc (ops : List Op) (op : Op) (va : Nat) :
    lastAdd (ops ++ [op]) va = (op.translation va).or (lastAdd ops va) := by
  rw [lastAdd, List.foldl_append, List.foldl_cons, List.foldl_nil, lastAdd]

/-- The entry carries the translation that the calls so far ask for. -/
def Carries (ops : List Op) (pte : PageTableEntry) (va : Nat) : Prop :=
  ∃ page accessType, lastAdd ops va = some (page, accessType) ∧ pte.PN = page % 2 ^ 45 ∧
    HasAccess pte accessType

/-- The invariant of the table after the calls `ops`. -/
structure Inv (ops : List Op) (s : PageTableManager) : Prop where
  bit : ∀ i, (s.pt i).V = 0 ∨ (s.pt i).V = 1
  /-- An abbreviated address stands once in a group, except the initial one. -/
  unique : ∀ i j, i / PTEG_SIZE = j / PTEG_SIZE → (s.pt i).AVA = (s.pt j).AVA →
    (s.pt i).AVA ≠ PTE_AVA_MASK → i = j
  carries : ∀ i, (s.pt i).V = 1 → ∃ va, va % PAGESIZE = 0 ∧ Maps s i va ∧
    Carries ops (s.pt i) va

theorem inv_init (ivTABLE : Bool) (idle : Nat) (pt : Nat → PageTableEntry) :
    Inv [] (PageTableManager.invalidatePT ⟨ivTABLE, idle, pt⟩) where
  bit := fun _ => Or.inl rfl
  unique := fun _ _ _ _ hne => absurd rfl hne
  carries := fun _ hv => by simp [PageTableManager.invalidatePT] at hv

theorem inv_fades {ops : List Op} {op : Op} {s s' : PageTableManager} (hinv : Inv ops s)
    (hfades : Fades s s') (hop : ∀ va, op.translation va = none) : Inv (ops ++ [op]) s' := by
  refine ⟨fun i => ?_, fun i j hij hava hne => ?_, fun i hv => ?_⟩
  · rcases (hfades i).valid with h | h
    · rw [h]
      exact hinv.bit i
    · exact Or.inl h
  · rw [(hfades i).same.ava] at hava hne
    rw [(hfades j).same.ava] at hava
    exact hinv.unique i j hij hava hne
  · have hv0 : (s.pt i).V = 1 := by
      rcases (hfades i).valid with h | h <;> omega
    obtain ⟨va, hal, ⟨-, hgroup, hava⟩, page, accessType, hlast, hpn, haccess⟩ :=
      hinv.carries i hv0
    refine ⟨va, hal, ⟨hv, hgroup, (hfades i).same.ava.trans hava⟩, page, accessType, ?_,
      (hfades i).same.pn.trans hpn, haccess.faded (hfades i)⟩
    rw [lastAdd_snoc, hop, Option.none_or]
    exact hlast

theorem ava_ne_mask {va : Nat} (hva : va < 2 ^ 64) : va >>> 23 ≠ PTE_AVA_MASK := by
  rw [Nat.shiftRight_eq_div_pow]
  unfold PTE_AVA_MASK
  omega

theorem inv_addEntry {ops : List Op} {s s' : PageTableManager} {hrmor va page accessType : Nat}
    {pteData : PageTableEntry} (hinv : Inv ops s) (hva : va < 2 ^ 64)
    (h : s.addEntry hrmor va page accessType pteData = some s') :
    Inv (ops ++ [.addEntry hrmor va page accessType pteData]) s' := by
  obtain ⟨slot, hadd⟩ := PageTableManager.addEntryPage_added hva h
  have hmask := ava_ne_mask hva
  -- No other entry of the group has the abbreviated address of the new one.
  have halone : ∀ i, i ≠ slot → i / PTEG_SIZE = slot / PTEG_SIZE → (s.pt i).AVA ≠ va >>> 23 := by
    intro i hi hgroup hava
    rcases hadd.found with hfound | hnone
    · exact hi (hinv.unique i slot hgroup (hava.trans hfound.symm) (by rwa [hava]))
    · exact hnone i (hgroup.trans hadd.group) hava
  refine ⟨fun i => ?_, fun i j hij hava hne => ?_, fun i hv => ?_⟩
  · by_cases hi : i = slot
    · exact Or.inr (hi ▸ hadd.valid)
    · rcases (hadd.others i hi).valid with h | h
      · rw [h]
        exact hinv.bit i
      · exact Or.inl h
  · by_cases hi : i = slot
    · by_cases hj : j = slot
      · rw [hi, hj]
      · rw [hi, hadd.ava, (hadd.others j hj).same.ava] at hava
        exact absurd hava.symm (halone j hj (by rw [← hij, hi]))
    · rw [(hadd.others i hi).same.ava] at hava hne
      by_cases hj : j = slot
      · rw [hj, hadd.ava] at hava
        exact absurd hava (halone i hi (by rw [hij, hj]))
      · rw [(hadd.others j hj).same.ava] at hava
        exact hinv.unique i j hij hava hne
  · by_cases hi : i = slot
    · subst hi
      refine ⟨alignPageDown va, alignPageDown_mod va, ⟨hv, ?_, ?_⟩,
        PageTableManager.realPage hrmor page accessType, accessType, ?_, hadd.pn, hadd.access⟩
      · rw [findPTEG_alignPageDown]
        exact hadd.group
      · rw [shiftRight_alignPageDown]
        exact hadd.ava
      · rw [lastAdd_snoc, Op.translation, if_pos rfl, Option.some_or]
    · have hfade := hadd.others i hi
      have hv0 : (s.pt i).V = 1 := by
        rcases hfade.valid with h | h <;> omega
      obtain ⟨va', hal, ⟨-, hgroup, hava⟩, page', accessType', hlast, hpn, haccess⟩ :=
        hinv.carries i hv0
      refine ⟨va', hal, ⟨hv, hgroup, hfade.same.ava.trans hava⟩, page', accessType', ?_,
        hfade.same.pn.trans hpn, haccess.faded hfade⟩
      have hne : alignPageDown va ≠ va' := by
        intro heq
        refine halone i hi ?_ ?_
        · rw [hgroup, hadd.group, ← heq, findPTEG_alignPageDown]
        · rw [hava, ← heq, shiftRight_alignPageDown]
      rw [lastAdd_snoc, Op.translation, if_neg hne, Option.none_or]
      exact hlast

theorem inv_step {ops : List Op} {op : Op} {s s' : PageTableManager} (hinv : Inv ops s)
    (hstep : Step s op s') : Inv (ops ++ [op]) s' := by
  cases hstep with
  | addEntry hva h => exact inv_addEntry hinv hva h
  | delEntry => exact inv_fades hinv (s.fades_delEntry _) fun _ => rfl
  | delRangeVA h =>
    exact inv_fades hinv (PageTableManager.fades_delRangeVALoop h) fun _ => rfl
  | delRangePN => exact inv_fades hinv (s.fades_delRangePN _ _ _ _) fun _ => rfl
  | flush => exact inv_fades hinv s.fades_flush fun _ => rfl
  | reference => exact inv_fades hinv (s.fades_reference _) fun _ => rfl

/-! ## Looking an address up -/

section Lookup

variable {ops : List Op} {s : PageTableManager} {i j va : Nat}

theorem Inv.ava_unique (hinv : Inv ops s) (hva : va < 2 ^ 64) (hi : i / PTEG_SIZE = findPTEG va)
    (hava : (s.pt i).AVA = va >>> 23) (hj : j / PTEG_SIZE = findPTEG va)
    (hava' : (s.pt j).AVA = va >>> 23) : i = j :=
  hinv.unique i j (hi.trans hj.symm) (hava.trans hava'.symm) (hava ▸ ava_ne_mask hva)

/-- `findPTE` answers the entry with the abbreviated address, valid or not. -/
theorem Inv.findPTE_eq (hinv : Inv ops s) (hva : va < 2 ^ 64) (hi : i / PTEG_SIZE = findPTEG va)
    (hava : (s.pt i).AVA = va >>> 23) : s.findPTE va = some i := by
  cases hfind : s.findPTE va with
  | none => exact absurd hava (PageTableManager.findPTEIn_none hfind hi)
  | some j =>
    obtain ⟨hj, hava'⟩ := PageTableManager.findPTEIn_some hfind
    rw [hinv.ava_unique hva hi hava hj hava']

/-- Without a valid entry, `findPTE` answers null or an entry that is not
valid. -/
theorem Inv.findPTE_unmapped (hinv : Inv ops s) (hnone : ∀ i, ¬ Maps s i va) :
    s.findPTE va = none ∨ ∃ i, s.findPTE va = some i ∧ (s.pt i).V = 0 := by
  cases hfind : s.findPTE va with
  | none => exact Or.inl rfl
  | some i =>
    obtain ⟨hgroup, hava⟩ := PageTableManager.findPTEIn_some hfind
    refine Or.inr ⟨i, rfl, (hinv.bit i).resolve_right fun hv => ?_⟩
    exact hnone i ⟨hv, hgroup, hava⟩

theorem Inv.carries_of_maps (hinv : Inv ops s) (hal : va % PAGESIZE = 0) (hmaps : Maps s i va) :
    Carries ops (s.pt i) va := by
  obtain ⟨hv, hgroup, hava⟩ := hmaps
  obtain ⟨va', hal', ⟨-, hgroup', hava'⟩, hcarries⟩ := hinv.carries i hv
  have heq : va' = va :=
    eq_of_findPTEG hal' hal (hgroup'.symm.trans hgroup) (hava'.symm.trans hava)
  exact heq ▸ hcarries

theorem Inv.delEntry_unmapped (hinv : Inv ops s) (hva : va < 2 ^ 64) :
    ¬ Maps (s.delEntry va) i va := by
  rintro ⟨hv, hgroup, hava⟩
  rw [((s.fades_delEntry va) i).same.ava] at hava
  have hfind := hinv.findPTE_eq hva hgroup hava
  rw [PageTableManager.delEntry, hfind] at hv
  simp only [s.delPTE_invalid i, zero_ne_one] at hv

theorem Inv.findPTE_delEntry (hinv : Inv ops s) (hva : va < 2 ^ 64) (hmaps : Maps s i va) :
    (s.delEntry va).findPTE va = some i := by
  have hfades := s.fades_delEntry va
  have hinv' : Inv (ops ++ [.delEntry va]) (s.delEntry va) :=
    inv_fades hinv hfades fun _ => rfl
  exact hinv'.findPTE_eq hva hmaps.2.1 ((hfades i).same.ava.trans hmaps.2.2)

end Lookup

theorem inv_of_run {ivTABLE : Bool} {idle : Nat} {pt : Nat → PageTableEntry} {ops : List Op}
    {s : PageTableManager}
    (hrun : Run Step (PageTableManager.invalidatePT ⟨ivTABLE, idle, pt⟩) ops s) : Inv ops s :=
  hrun.invariant_trace (inv_init ivTABLE idle pt) fun _ _ _ _ => inv_step

/-- After every run from an invalidated table: an address has at most one valid
entry, `findPTE` answers it, and otherwise null or an entry that is not valid;
a valid entry has the page and the access of the last `addEntry` for its
address; and `delEntry` leaves no valid entry. -/
theorem lookup_of_run {ivTABLE : Bool} {idle : Nat} {pt : Nat → PageTableEntry} {ops : List Op}
    {s : PageTableManager}
    (hrun : Run Step (PageTableManager.invalidatePT ⟨ivTABLE, idle, pt⟩) ops s) {va : Nat}
    (hva : va < 2 ^ 64) :
    (∀ i j, Maps s i va → Maps s j va → i = j) ∧
      (∀ i, Maps s i va → s.findPTE va = some i) ∧
      ((∀ i, ¬ Maps s i va) →
        s.findPTE va = none ∨ ∃ i, s.findPTE va = some i ∧ (s.pt i).V = 0) ∧
      (va % PAGESIZE = 0 → ∀ i, Maps s i va → Carries ops (s.pt i) va) ∧
      ∀ i, ¬ Maps (s.delEntry va) i va := by
  have hinv := inv_of_run hrun
  refine ⟨fun i j hi hj => ?_, fun i hi => ?_, hinv.findPTE_unmapped, fun hal i => ?_,
    fun i => hinv.delEntry_unmapped hva⟩
  · exact hinv.ava_unique hva hi.2.1 hi.2.2 hj.2.1 hj.2.2
  · exact hinv.findPTE_eq hva hi.2.1 hi.2.2
  · exact hinv.carries_of_maps hal

/-- An entry with all fields zero. -/
def zeroPTE : PageTableEntry := ⟨0, 0, 0, 0, 0, 0, 0, 0, 0, 0, 0, 0, 0, 0⟩

theorem run_addEntry : ∃ s i,
    Run Step (PageTableManager.invalidatePT ⟨false, 0, fun _ => zeroPTE⟩)
      [.addEntry 0 4096 5 WRITABLE zeroPTE] s ∧ Maps s i 4096 ∧ (s.pt i).PN = 5 := by
  refine ⟨_, 8, .snoc .nil (.addEntry (by decide) rfl), ⟨rfl, rfl, rfl⟩, rfl⟩

/-- The mapped page is found. -/
theorem lookup_of_run_one_page : ∃ s i,
    Run Step (PageTableManager.invalidatePT ⟨false, 0, fun _ => zeroPTE⟩)
      [.addEntry 0 4096 5 WRITABLE zeroPTE] s ∧ Maps s i 4096 ∧ s.findPTE 4096 = some i := by
  obtain ⟨s, i, hrun, hmaps, -⟩ := run_addEntry
  exact ⟨s, i, hrun, hmaps, (lookup_of_run hrun (by decide)).2.1 i hmaps⟩

/-- After `delEntry` the address has no valid entry, and `findPTE` does not
answer null. -/
theorem findPTE_after_delEntry : ∃ s,
    Run Step (PageTableManager.invalidatePT ⟨false, 0, fun _ => zeroPTE⟩)
      [.addEntry 0 4096 5 WRITABLE zeroPTE, .delEntry 4096] s ∧
      (∀ i, ¬ Maps s i 4096) ∧ s.findPTE 4096 ≠ none := by
  obtain ⟨s, i, hrun, hmaps, -⟩ := run_addEntry
  have hinv := inv_of_run hrun
  refine ⟨s.delEntry 4096, hrun.snoc .delEntry, fun i => hinv.delEntry_unmapped (by decide), ?_⟩
  rw [hinv.findPTE_delEntry (by decide) hmaps]
  exact Option.some_ne_none i

end Hostboot.PtMgr
