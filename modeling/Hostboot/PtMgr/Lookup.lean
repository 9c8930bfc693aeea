import Mathlib
import Hostboot.PtMgr.Core

/-!
# Finding an entry

The hash of an address and its abbreviated virtual address together give the
address back.  The hash of a virtual address `va` is the exclusive or of the
bits from 40 up and the bits from 12 up, cut to 11 bits, and the abbreviated
address has the bits from 23 up: what the abbreviated address lacks, the
number of the group restores.  `eq_of_findPTEG` is this fact, and
`getVirtAddrFromPTE` of the source computes the address that way.

`Same pte pte'` says that two entries map the same page with the same access,
and `Fades s s'` that the table only lost valid bits and changed usage bits.
Every function but `addEntry` fades the table.
-/

namespace Hostboot.PtMgr

/-! ## The hash -/

theorem testBit_extractRJ (x i : Nat) {start last : Nat} (hle : start ≤ last) (hlast : last ≤ 63) :
    (extractRJ x start last).testBit i
      = (decide (i ≤ last - start) && x.testBit (63 - last + i)) := by
  unfold extractRJ
  simp only [Nat.testBit_shiftRight, Nat.testBit_and, Nat.testBit_mod_two_pow,
    Nat.testBit_shiftLeft, Nat.testBit_two_pow_sub_one]
  by_cases hi : i ≤ last - start
  · have h1 : 63 - last + i < 64 := by omega
    have h2 : 63 - last + i ≥ 63 - last := by omega
    have h3 : start + (63 - last + i) < 64 := by omega
    have h4 : 63 - last + i - (63 - last) < 64 := by omega
    simp [hi, h1, h2, h3]
    omega
  · have h1 : ¬ start + (63 - last + i) < 64 := by omega
    simp [hi, h1]

theorem testBit_extractRJLen (w i : Nat) {start last : Nat} (hle : start ≤ last) (hlo : 14 ≤ last)
    (hhi : last ≤ 77) (hlen : last - start ≤ 63) :
    (extractRJLen w 78 start last).testBit i
      = (decide (i ≤ last - start) && w.testBit (77 - last + i)) := by
  unfold extractRJLen
  rw [if_neg (by omega)]
  simp only
  rw [testBit_extractRJ _ _ (Nat.zero_le _) hlen, Nat.sub_zero]
  by_cases hi : i ≤ last - start
  · split
    · have hidx : 78 - 64 - start + (63 - (last - start) + i) = 77 - last + i := by omega
      rw [Nat.testBit_shiftRight, hidx]
    · have h1 : 63 - (last - start) + i < 64 := by omega
      have h2 : 63 - (last - start) + i ≥ start - (78 - 64) := by omega
      have hidx : 63 - (last - start) + i - (start - (78 - 64)) = 77 - last + i := by omega
      rw [Nat.testBit_mod_two_pow, Nat.testBit_shiftLeft, hidx]
      simp [h1, h2]
  · simp [hi]

theorem testBit_findPTEG (va : Nat) {i : Nat} (hi : i < 11) :
    (findPTEG va).testBit i = (va.testBit (40 + i) ^^ va.testBit (12 + i)) := by
  have hcount : PTEG_COUNT = 2 ^ 11 := rfl
  have h25 : ¬ i ≥ 25 := by omega
  have h37 : i ≤ 37 := by omega
  have h27 : i ≤ 27 := by omega
  unfold findPTEG computeHash SLBE_b
  rw [hcount]
  simp only [Nat.testBit_mod_two_pow, Nat.testBit_xor, Nat.testBit_shiftLeft]
  rw [testBit_extractRJLen va i (by omega) (by omega) (by omega) (by omega),
    testBit_extractRJLen va i (by omega) (by omega) (by omega) (by omega)]
  simp [hi, h25, h37, h27]

theorem findPTEG_lt (va : Nat) : findPTEG va < PTEG_COUNT :=
  Nat.mod_lt _ (by decide)

/-- Addresses of different pages differ in the group or in the abbreviated
address. -/
theorem eq_of_findPTEG {va va' : Nat} (hal : va % PAGESIZE = 0) (hal' : va' % PAGESIZE = 0)
    (hgroup : findPTEG va = findPTEG va') (hava : va >>> 23 = va' >>> 23) : va = va' := by
  have hhigh : ∀ j, 23 ≤ j → va.testBit j = va'.testBit j := by
    intro j hj
    have h := congrArg (fun x => x.testBit (j - 23)) hava
    simp only [Nat.testBit_shiftRight] at h
    rwa [show 23 + (j - 23) = j by omega] at h
  apply Nat.eq_of_testBit_eq
  intro j
  by_cases h23 : 23 ≤ j
  · exact hhigh j h23
  · by_cases h12 : 12 ≤ j
    · -- The group gives the bits below 23 back.
      have h := congrArg (fun x => x.testBit (j - 12)) hgroup
      simp only [testBit_findPTEG _ (show j - 12 < 11 by omega)] at h
      rw [hhigh (40 + (j - 12)) (by omega), show 12 + (j - 12) = j by omega] at h
      simpa using h
    · have hlow : ∀ x : Nat, x % PAGESIZE = 0 → x.testBit j = false := by
        intro x hx
        have h := Nat.testBit_mod_two_pow x 12 j
        rw [show (2 : Nat) ^ 12 = PAGESIZE from rfl, hx, Nat.zero_testBit] at h
        simpa [show j < 12 by omega] using h.symm
      rw [hlow va hal, hlow va' hal']

theorem alignPageDown_mod (va : Nat) : alignPageDown va % PAGESIZE = 0 := by
  unfold alignPageDown PAGESIZE
  omega

theorem testBit_alignPageDown (va : Nat) {j : Nat} (hj : 12 ≤ j) :
    (alignPageDown va).testBit j = va.testBit j := by
  have hdiv : alignPageDown va >>> 12 = va >>> 12 := by
    rw [Nat.shiftRight_eq_div_pow, Nat.shiftRight_eq_div_pow]
    unfold alignPageDown PAGESIZE
    omega
  have h := congrArg (fun x => x.testBit (j - 12)) hdiv
  simp only [Nat.testBit_shiftRight] at h
  rwa [show 12 + (j - 12) = j by omega] at h

theorem findPTEG_alignPageDown (va : Nat) : findPTEG (alignPageDown va) = findPTEG va := by
  apply Nat.eq_of_testBit_eq
  intro i
  by_cases hi : i < 11
  · rw [testBit_findPTEG _ hi, testBit_findPTEG _ hi, testBit_alignPageDown _ (by omega),
      testBit_alignPageDown _ (by omega)]
  · have hlt : ∀ x, (findPTEG x).testBit i = false := by
      intro x
      refine Nat.testBit_lt_two_pow (lt_of_lt_of_le (findPTEG_lt x) ?_)
      calc PTEG_COUNT = 2 ^ 11 := rfl
        _ ≤ 2 ^ i := Nat.pow_le_pow_right (by omega) (by omega)
    rw [hlt, hlt]

theorem shiftRight_alignPageDown (va : Nat) : alignPageDown va >>> 23 = va >>> 23 := by
  rw [Nat.shiftRight_eq_div_pow, Nat.shiftRight_eq_div_pow]
  unfold alignPageDown PAGESIZE
  omega

/-! ## Searching a group -/

namespace PageTableManager

theorem mem_group {pteg i : Nat} : i ∈ group pteg ↔ i / PTEG_SIZE = pteg := by
  unfold group PTEG_SIZE
  rw [List.mem_map]
  constructor
  · rintro ⟨x, hx, rfl⟩
    rw [List.mem_range] at hx
    omega
  · intro h
    refine ⟨i % 8, List.mem_range.mpr (by omega), by omega⟩

theorem findPTEIn_some {s : PageTableManager} {va pteg i : Nat}
    (h : s.findPTEIn va pteg = some i) : i / PTEG_SIZE = pteg ∧ (s.pt i).AVA = va >>> 23 := by
  have hmem := mem_group.1 (List.mem_of_find?_eq_some h)
  have hava := List.find?_some h
  exact ⟨hmem, of_decide_eq_true hava⟩

theorem findPTEIn_none {s : PageTableManager} {va pteg i : Nat}
    (h : s.findPTEIn va pteg = none) (hi : i / PTEG_SIZE = pteg) :
    (s.pt i).AVA ≠ va >>> 23 := by
  have hall := List.find?_eq_none.mp h i (mem_group.2 hi)
  simpa using hall

theorem findEmptyPTE_some {s : PageTableManager} {pteg i : Nat}
    (h : s.findEmptyPTE pteg = some i) : i / PTEG_SIZE = pteg ∧ (s.pt i).V = 0 := by
  have hmem := mem_group.1 (List.mem_of_find?_eq_some h)
  have hv := List.find?_some h
  exact ⟨hmem, of_decide_eq_true hv⟩

theorem findOldPTE_group (s : PageTableManager) (pteg : Nat) :
    s.findOldPTE pteg / PTEG_SIZE = pteg := by
  have hfold : ∀ (l : List Nat) (old : Nat), (∀ i ∈ l, i / PTEG_SIZE = pteg) →
      old / PTEG_SIZE = pteg →
      l.foldl (fun old i =>
        if s.isIdleTask old then i
        else if (s.pt i).LRU > (s.pt old).LRU && !s.isIdleTask i then i
        else old) old / PTEG_SIZE = pteg := by
    intro l
    induction l with
    | nil => exact fun old _ hold => hold
    | cons i l ih =>
      intro old hl hold
      have hi := hl i (by simp)
      rw [List.foldl_cons]
      refine ih _ (fun j hj => hl j (by simp [hj])) ?_
      split
      · exact hi
      · split
        · exact hi
        · exact hold
  refine hfold _ _ (fun i hi => mem_group.1 hi) ?_
  unfold PTEG_SIZE
  omega

end PageTableManager

/-! ## Fading -/

/-- Two entries of one address that map the same page with the same access. -/
structure Same (pte pte' : PageTableEntry) : Prop where
  ava : pte'.AVA = pte.AVA
  pn : pte'.PN = pte.PN
  pp0 : pte'.pp0 = pte.pp0
  wimg : pte'.WIMG = pte.WIMG
  n : pte'.N = pte.N
  pp1_2 : pte'.pp1_2 = pte.pp1_2

/-- An entry that is as before, or that lost its valid bit. -/
structure Faded (pte pte' : PageTableEntry) : Prop where
  same : Same pte pte'
  valid : pte'.V = pte.V ∨ pte'.V = 0

theorem Faded.refl (pte : PageTableEntry) : Faded pte pte :=
  ⟨⟨rfl, rfl, rfl, rfl, rfl, rfl⟩, Or.inl rfl⟩

theorem Faded.trans {p p' p'' : PageTableEntry} (h : Faded p p') (h' : Faded p' p'') :
    Faded p p'' := by
  refine ⟨⟨h'.same.ava.trans h.same.ava, h'.same.pn.trans h.same.pn,
    h'.same.pp0.trans h.same.pp0, h'.same.wimg.trans h.same.wimg, h'.same.n.trans h.same.n,
    h'.same.pp1_2.trans h.same.pp1_2⟩, ?_⟩
  rcases h'.valid with hv | hv
  · rw [hv]
    exact h.valid
  · exact Or.inr hv

/-- The table only lost valid bits and changed usage bits. -/
def Fades (s s' : PageTableManager) : Prop := ∀ i, Faded (s.pt i) (s'.pt i)

theorem Fades.refl (s : PageTableManager) : Fades s s := fun _ => Faded.refl _

theorem Fades.trans {s s' s'' : PageTableManager} (h : Fades s s') (h' : Fades s' s'') :
    Fades s s'' := fun i => (h i).trans (h' i)

theorem faded_updateLRUEntry (pte : PageTableEntry) : Faded pte (updateLRUEntry pte) := by
  rw [updateLRUEntry]
  split
  · exact ⟨⟨rfl, rfl, rfl, rfl, rfl, rfl⟩, Or.inl rfl⟩
  · split
    · exact ⟨⟨rfl, rfl, rfl, rfl, rfl, rfl⟩, Or.inl rfl⟩
    · exact Faded.refl _

namespace PageTableManager

theorem fades_setPTE (s : PageTableManager) {i : Nat} {pte : PageTableEntry}
    (h : Faded (s.pt i) pte) : Fades s (s.setPTE i pte) := by
  intro j
  by_cases hj : j = i
  · subst hj
    simpa [setPTE] using h
  · simpa [setPTE, hj] using Faded.refl (s.pt j)

theorem fades_pushUsageStats (s : PageTableManager) (i : Nat) : Fades s (s.pushUsageStats i) := by
  rw [pushUsageStats]
  split
  · exact Fades.refl s
  · exact s.fades_setPTE ⟨⟨rfl, rfl, rfl, rfl, rfl, rfl⟩, Or.inl rfl⟩

theorem fades_delPTE (s : PageTableManager) (i : Nat) : Fades s (s.delPTE i) := by
  rw [delPTE]
  split
  · have hclear : Faded (s.pt i) { s.pt i with V := 0 } :=
      ⟨⟨rfl, rfl, rfl, rfl, rfl, rfl⟩, Or.inr rfl⟩
    exact (s.fades_setPTE hclear).trans (fades_pushUsageStats _ i)
  · exact Fades.refl s

theorem delPTE_invalid (s : PageTableManager) (i : Nat) : ((s.delPTE i).pt i).V = 0 := by
  rw [delPTE]
  split
  · rw [pushUsageStats]
    split <;> simp [setPTE]
  · rename_i hv
    simpa using hv

theorem fades_delEntry (s : PageTableManager) (va : Nat) : Fades s (s.delEntry va) := by
  rw [delEntry]
  split
  · exact s.fades_delPTE _
  · exact Fades.refl s

theorem fades_delRangeVALoop {fuel va finish : Nat} {s s' : PageTableManager}
    (h : delRangeVALoop fuel s va finish = some s') : Fades s s' := by
  induction fuel generalizing s va with
  | zero => simp [delRangeVALoop] at h
  | succ fuel ih =>
    rw [delRangeVALoop] at h
    split at h
    · exact (s.fades_delEntry va).trans (ih h)
    · simp only [Option.some.injEq] at h
      subst h
      exact Fades.refl s

theorem fades_foldl {f : PageTableManager → Nat → PageTableManager} (hf : ∀ s x, Fades s (f s x))
    (l : List Nat) (s : PageTableManager) : Fades s (l.foldl f s) := by
  induction l generalizing s with
  | nil => exact Fades.refl s
  | cons x l ih => exact (hf s x).trans (ih (f s x))

theorem fades_delIfPN (pnStart pnFinish : Nat) (s : PageTableManager) (x : Nat) :
    Fades s (delIfPN pnStart pnFinish s x) := by
  rw [delIfPN]
  split
  · exact s.fades_delPTE x
  · exact Fades.refl s

theorem fades_delRangePN (s : PageTableManager) (hrmor pnStart pnFinish : Nat)
    (applyHRMOR : Bool) : Fades s (s.delRangePN hrmor pnStart pnFinish applyHRMOR) :=
  fades_foldl (fades_delIfPN _ _) _ s

theorem fades_flush (s : PageTableManager) : Fades s s.flush := by
  rw [flush]
  split
  · exact Fades.refl s
  · refine fades_foldl (fun s x => ?_) _ s
    split
    · exact s.fades_pushUsageStats x
    · exact Fades.refl s

theorem fades_reference (s : PageTableManager) (i : Nat) : Fades s (s.reference i) :=
  s.fades_setPTE ⟨⟨rfl, rfl, rfl, rfl, rfl, rfl⟩, Or.inl rfl⟩

theorem fades_updateLRUGroup (s : PageTableManager) (i : Nat) : Fades s (s.updateLRUGroup i) := by
  intro j
  by_cases hj : j / PTEG_SIZE = i / PTEG_SIZE ∧ j ≠ i
  · simpa [updateLRUGroup, hj] using faded_updateLRUEntry (s.pt j)
  · simp only [updateLRUGroup, if_neg hj]
    exact Faded.refl _

end PageTableManager

end Hostboot.PtMgr
