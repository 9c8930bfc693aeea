import Hostboot.PtMgr.Translations

/-!
# The address of an entry

`PageTableManager::getVirtAddrFromPTE` of `src/kernel/ptmgr.C` finds the
virtual address an entry stands for.  The entry has only the bits from 23 up;
the bits below are in the number of its group, under the bits of the hash, and
are found by inverting the exclusive or.
-/

namespace Hostboot.PtMgr

open Lib

/-! ## The function of the source -/

/-- `EXTRACT_RJ_LEN` on a buffer of `bitlen ≤ 64` bits. -/
def extractRJLenWord (lastword bitlen startbit lastbit : Nat) : Nat :=
  extractRJ lastword (startbit + (64 - bitlen)) (lastbit + (64 - bitlen))

/-- `PageTableManager::getVirtAddrFromPTE` of the entry `i` of the table. -/
def PageTableManager.getVirtAddrFromPTE (s : PageTableManager) (i : Nat) : Nat :=
  let ptegNum := i / PTEG_SIZE
  let Yp := extractRJLenWord (s.pt i).AVA 55 27 37
  let Zp := Yp ^^^ ptegNum
  ((Zp <<< 12) % 2 ^ 64) ||| (((s.pt i).AVA <<< 23) % 2 ^ 64)

/-! ## Inverting the hash -/

theorem testBit_Yp (va i : Nat) : (extractRJLenWord (va >>> 23) 55 27 37).testBit i
    = (decide (i < 11) && va.testBit (40 + i)) := by
  unfold extractRJLenWord
  rw [testBit_extractRJ _ _ (by omega) (by omega), Nat.testBit_shiftRight]
  have hlast : (i ≤ 37 + (64 - 55) - (27 + (64 - 55))) ↔ i < 11 := by omega
  have hidx : 23 + (63 - (37 + (64 - 55)) + i) = 40 + i := by omega
  rw [hidx, decide_eq_decide.mpr hlast]

/-- `Z'` of the source: `Y'` cancels, and the bits from 12 to 22 remain. -/
theorem testBit_Zp (va i : Nat) :
    (extractRJLenWord (va >>> 23) 55 27 37 ^^^ findPTEG va).testBit i
      = (decide (i < 11) && va.testBit (12 + i)) := by
  rw [Nat.testBit_xor, testBit_Yp]
  by_cases hi : i < 11
  · rw [testBit_findPTEG va hi]
    simp [hi]
  · have hlt : findPTEG va < 2 ^ i := by
      refine lt_of_lt_of_le (findPTEG_lt va) ?_
      calc PTEG_COUNT = 2 ^ 11 := rfl
        _ ≤ 2 ^ i := Nat.pow_le_pow_right (by omega) (by omega)
    rw [Nat.testBit_lt_two_pow hlt]
    simp [hi]

theorem testBit_alignPageDown_low (va : Nat) {j : Nat} (hj : j < 12) :
    (alignPageDown va).testBit j = false := by
  have h := Nat.testBit_mod_two_pow (alignPageDown va) 12 j
  rw [show (2 : Nat) ^ 12 = PAGESIZE from rfl, alignPageDown_mod, Nat.zero_testBit] at h
  simpa [hj] using h.symm

namespace PageTableManager

/-- An entry in the group of an address that carries the abbreviated address
gives the address of its page. -/
theorem getVirtAddrFromPTE_eq {s : PageTableManager} {va i : Nat} (hva : va < 2 ^ 64)
    (hgroup : i / PTEG_SIZE = findPTEG va) (hava : (s.pt i).AVA = va >>> 23) :
    s.getVirtAddrFromPTE i = alignPageDown va := by
  unfold getVirtAddrFromPTE
  rw [hgroup, hava]
  apply Nat.eq_of_testBit_eq
  intro j
  simp only [Nat.testBit_or, Nat.testBit_mod_two_pow, Nat.testBit_shiftLeft, testBit_Zp,
    Nat.testBit_shiftRight]
  by_cases hlow : j < 12
  · have h12 : ¬ j ≥ 12 := by omega
    have h23 : ¬ j ≥ 23 := by omega
    rw [testBit_alignPageDown_low va hlow]
    simp [h12, h23]
  · have h12 : j ≥ 12 := by omega
    rw [testBit_alignPageDown va h12]
    by_cases hmid : j < 23
    · have h64 : j < 64 := by omega
      have h23 : ¬ j ≥ 23 := by omega
      have h11 : j - 12 < 11 := by omega
      have hidx : 12 + (j - 12) = j := by omega
      simp [h64, h12, h23, h11, hidx]
    · have h23 : j ≥ 23 := by omega
      have h11 : ¬ j - 12 < 11 := by omega
      have hidx : 23 + (j - 23) = j := by omega
      by_cases h64 : j < 64
      · simp [h64, h23, h11, hidx]
      · have hhigh : va < 2 ^ j := lt_of_lt_of_le hva (Nat.pow_le_pow_right (by omega) (by omega))
        rw [Nat.testBit_lt_two_pow hhigh]
        simp [h64]

/-- `writePTE` in a slot of the group of an address: the written entry gives
the address of the page back, and no other page has the same group and the
same abbreviated address. -/
theorem getVirtAddrFromPTE_writePTE {s s' : PageTableManager} {pte : PageTableEntry}
    {va slot : Nat} (hva : va < 2 ^ 64) (hava : pte.AVA = (va >>> 23) % 2 ^ 45)
    (hslot : slot ∈ group (findPTEG va)) (hwrite : s.writePTE pte slot = some s') :
    s'.getVirtAddrFromPTE slot = alignPageDown va ∧
      ∀ va' < 2 ^ 64, findPTEG va' = findPTEG va → (va' >>> 23) % 2 ^ 45 = (va >>> 23) % 2 ^ 45 →
        alignPageDown va' = alignPageDown va := by
  have hfits : ∀ x < 2 ^ 64, (x >>> 23) % 2 ^ 45 = x >>> 23 := by
    intro x hx
    rw [Nat.shiftRight_eq_div_pow]
    omega
  constructor
  · have hsame := (writePTE_spec hwrite).1.ava
    rw [hava, hfits va hva] at hsame
    exact getVirtAddrFromPTE_eq hva (mem_group.mp hslot) hsame
  · intro va' hva' hgroup havas
    rw [hfits va' hva', hfits va hva] at havas
    refine eq_of_findPTEG (alignPageDown_mod va') (alignPageDown_mod va) ?_ ?_
    · rw [findPTEG_alignPageDown, findPTEG_alignPageDown, hgroup]
    · rw [shiftRight_alignPageDown, shiftRight_alignPageDown, havas]

/-- The entry of the highest page. -/
def lastPTE : PageTableEntry := { zeroPTE with AVA := 2 ^ 41 - 1 }

/-- It is written to the last slot of its group. -/
theorem getVirtAddrFromPTE_writePTE_last : ∃ s',
    writePTE ⟨false, 0, fun _ => zeroPTE⟩ lastPTE (findPTEG (2 ^ 64 - 1) * PTEG_SIZE + 7)
      = some s' ∧
    s'.getVirtAddrFromPTE (findPTEG (2 ^ 64 - 1) * PTEG_SIZE + 7) = 2 ^ 64 - 4096 := by
  obtain ⟨s', hwrite⟩ : ∃ s', writePTE ⟨false, 0, fun _ => zeroPTE⟩ lastPTE
      (findPTEG (2 ^ 64 - 1) * PTEG_SIZE + 7) = some s' := ⟨_, rfl⟩
  have hava : lastPTE.AVA = ((2 ^ 64 - 1) >>> 23) % 2 ^ 45 := by decide
  have hslot : findPTEG (2 ^ 64 - 1) * PTEG_SIZE + 7 ∈ group (findPTEG (2 ^ 64 - 1)) := by decide
  exact ⟨s', hwrite, (getVirtAddrFromPTE_writePTE (by decide) hava hslot hwrite).1⟩

end PageTableManager

/-! ## A table that calls have filled -/

/-- The addresses that the calls ask for have 64 bits. -/
def InRange (ops : List Op) : Prop := ∀ va x, lastAdd ops va = some x → va < 2 ^ 64

theorem inRange_step {ops : List Op} {op : Op} {s s' : PageTableManager} (h : InRange ops)
    (hstep : Step s op s') : InRange (ops ++ [op]) := by
  intro va x hlast
  rw [lastAdd_snoc] at hlast
  cases hop : op.translation va with
  | none =>
    rw [hop, Option.none_or] at hlast
    exact h va x hlast
  | some y =>
    cases hstep with
    | @addEntry _ _ vAddr _ _ _ hva _ =>
      simp only [Op.translation] at hop
      split at hop
      · next heq =>
        have hle : alignPageDown vAddr ≤ vAddr := Nat.sub_le _ _
        omega
      · cases hop
    | _ => cases hop

theorem inRange_of_run {ops : List Op} {s s' : PageTableManager} (hrun : Run Step s ops s') :
    InRange ops := by
  have hnil : InRange [] := fun _ _ h => by cases h
  have hstep : ∀ (ops : List Op) (s : PageTableManager) (op : Op) (s' : PageTableManager),
      InRange ops → Step s op s' → InRange (ops ++ [op]) := fun _ _ _ _ => inRange_step
  exact hrun.invariant_trace hnil hstep

/-- After every run from an invalidated table, a valid entry is the one that
`findPTE` answers for the address it stands for: the usage bits that
`pushUsageStats` hands over go to the page they are about. -/
theorem findPTE_getVirtAddrFromPTE_of_run {ivTABLE : Bool} {idle : Nat} {pt : Nat → PageTableEntry}
    {ops : List Op} {s : PageTableManager}
    (hrun : Run Step (PageTableManager.invalidatePT ⟨ivTABLE, idle, pt⟩) ops s) {i : Nat}
    (hv : (s.pt i).V = 1) : s.findPTE (s.getVirtAddrFromPTE i) = some i := by
  have hinv := inv_of_run hrun
  obtain ⟨va, hal, ⟨-, hgroup, hava⟩, page, accessType, hlast, -⟩ := hinv.carries i hv
  have hva := inRange_of_run hrun va _ hlast
  have hdown : alignPageDown va = va := by
    unfold alignPageDown
    rw [hal, Nat.sub_zero]
  rw [PageTableManager.getVirtAddrFromPTE_eq hva hgroup hava, hdown]
  exact hinv.findPTE_eq hva hgroup hava

theorem findPTE_getVirtAddrFromPTE_one_page : ∃ s i,
    Run Step (PageTableManager.invalidatePT ⟨false, 0, fun _ => zeroPTE⟩)
      [.addEntry 0 4096 5 WRITABLE zeroPTE] s ∧ s.findPTE (s.getVirtAddrFromPTE i) = some i := by
  obtain ⟨s, i, hrun, hmaps, -⟩ := run_addEntry
  exact ⟨s, i, hrun, findPTE_getVirtAddrFromPTE_of_run hrun hmaps.1⟩

end Hostboot.PtMgr
