import Hostboot.Util.Qsort
import Mathlib.Algebra.GroupWithZero.Nat

/-!
# Field core override

`applyFieldCoreOverrides` marks cores for deconfiguration until no more than
the field core override (FCO) value are left on a node.  It first looks for an
ideal share, then lets the processors take the remainder, and in fused mode it
lets one processor borrow a core that a later one pays back, because the two
cores of a fused core go together.

The metadata of a core is reached through a pointer, from the candidate list
of its processor and from its sibling, so the cores are a memory
`CorePtr → CoreFcoMetadata`.  A failed assertion and a null pointer that is
followed are `none`.
-/

namespace Hostboot.Hwas.Fco

open Util List

def NUM_CORE_PER_CHIP : Nat := 32

def BOOT_CORE_PRIORITY : Nat := 255

/-- Indexed by the chip unit of a core. -/
def CORE_FCO_PRIORITY_DECONFIG_LIST : List Nat :=
  [31, 32, 5, 6, 13, 14, 21, 22, 9, 10, 19, 20, 25, 26, 1, 2,
    27, 28, 3, 4, 11, 12, 17, 18, 15, 16, 23, 24, 29, 30, 7, 8]

/-- The difference of two values of type `size_t`. -/
def subSize (a b : Nat) : Nat := (a + 2 ^ 64 - b) % 2 ^ 64

theorem subSize_of_le {a b : Nat} (hle : b ≤ a) (ha : a < 2 ^ 64) : subSize a b = a - b := by
  unfold subSize
  omega

/-! ## The functions of the source -/

/-- A `coreFcoMetadata_t *`. -/
abbrev CorePtr := Nat

/-- `coreFcoMetadata_t`. -/
structure CoreFcoMetadata where
  chipUnit : Nat
  isBootCore : Bool
  markedForFcoDeconfig : Bool
  fcSiblingCore : Option CorePtr

/-- `procFcoMetadata_t`. -/
structure ProcFcoMetadata where
  procId : Nat
  availableCores : Nat
  isBootProc : Bool
  coreCandidateList : List CorePtr

/-- `fcoRestrictMetadata_t`. -/
structure FcoRestrictMetadata where
  fcoValue : Nat
  procFcoMetadataList : List ProcFcoMetadata

/-- The metadata of all cores. -/
abbrev Cores := CorePtr → CoreFcoMetadata

def getFcoBasedOnCoreType (fused : Bool) (fcoValue : Nat) : Nat :=
  if fused then (fcoValue + fcoValue) % 2 ^ 64 else fcoValue

def getCoreFcoPriority (core : CoreFcoMetadata) : Option Nat :=
  if core.isBootCore then some BOOT_CORE_PRIORITY
  else if core.chipUnit < NUM_CORE_PER_CHIP then CORE_FCO_PRIORITY_DECONFIG_LIST[core.chipUnit]?
  else none

def deconfigCoreByFco (cores : Cores) (p : CorePtr) : Cores :=
  Function.update cores p { cores p with markedForFcoDeconfig := true }

def deconfigFcByFco (cores : Cores) (p : CorePtr) : Option Cores :=
  (cores p).fcSiblingCore.map fun sibling => deconfigCoreByFco (deconfigCoreByFco cores p) sibling

/-- The local variables of `calculateIdealRemainingUnitsPerProc`. -/
structure Ideal where
  remainProc : Nat
  remainFco : Nat
  ideal : Nat
  extra : Nat

/-- The loop of `calculateIdealRemainingUnitsPerProc`. -/
def idealLoop : List ProcFcoMetadata → Ideal → Ideal
  | [], s => s
  | proc :: procs, s =>
    if proc.availableCores ≤ s.ideal then
      let remainProc := s.remainProc - 1
      if remainProc = 0 then { s with remainProc := remainProc }
      else
        let remainFco := s.remainFco - proc.availableCores
        idealLoop procs ⟨remainProc, remainFco, remainFco / remainProc, remainFco % remainProc⟩
    else idealLoop procs s

/-- The comparison by which `calculateIdealRemainingUnitsPerProc` sorts. -/
def byAvailableCores (thisProc thatProc : ProcFcoMetadata) : Bool :=
  thisProc.availableCores < thatProc.availableCores

/-- `calculateIdealRemainingUnitsPerProc`: the list it has sorted, the ideal
share and the extra units. -/
def calculateIdealRemainingUnitsPerProc (fused : Bool) (fcoData : FcoRestrictMetadata) :
    List ProcFcoMetadata × Nat × Nat :=
  let totalNumProcs := fcoData.procFcoMetadataList.length
  let remainFco := getFcoBasedOnCoreType fused fcoData.fcoValue
  let procs := QSort.sort byAvailableCores fcoData.procFcoMetadataList
  let s := idealLoop procs
    ⟨totalNumProcs, remainFco, remainFco / totalNumProcs, remainFco % totalNumProcs⟩
  (procs, s.ideal, s.extra)

/-- `calculateMaxUnitsForProc`: the units that this processor may keep, the
extra units and the debt behind it. -/
def calculateMaxUnitsForProc (fused : Bool) (ideal availableCores : Nat) (isLastProc : Bool)
    (extra debt : Nat) : Nat × Nat × Nat :=
  if availableCores ≤ ideal then (availableCores, extra, debt)
  else if extra > 0 then
    if fused ∧ (ideal + 1) % 2 ≠ 0 ∧ extra - 1 ≠ 0 then (ideal + 2, extra - 2, debt)
    else (ideal + 1, extra - 1, debt)
  else if debt ≠ 0 then (subSize ideal 1, extra, debt - 1)
  else if ideal % 2 ≠ 0 ∧ fused ∧ ¬isLastProc then (ideal + 1, extra, debt + 1)
  else (ideal, extra, debt)

/-- The comparison by which `applyFieldCoreOverrides` sorts the processors. -/
def bootFirst (thisProc thatProc : ProcFcoMetadata) : Bool :=
  if thisProc.isBootProc then true
  else if thatProc.isBootProc then false
  else thisProc.availableCores < thatProc.availableCores
    || (thisProc.availableCores == thatProc.availableCores && thisProc.procId < thatProc.procId)

/-- The candidates of a processor, sorted by priority.  The sort compares
every candidate as soon as there are two. -/
def sortCandidates (cores : Cores) (candidates : List CorePtr) : Option (List CorePtr) :=
  if candidates.length < 2 ∨ ∀ p ∈ candidates, (getCoreFcoPriority (cores p)).isSome then
    some (QSort.sort (fun p q => (getCoreFcoPriority (cores p)).getD 0
      < (getCoreFcoPriority (cores q)).getD 0) candidates)
  else none

/-- The loop over the candidates of a processor: the cores and the available
cores of the processor behind it. -/
def coreLoop (fused : Bool) (maxUnits : Nat) : List CorePtr → Cores → Nat → Option (Cores × Nat)
  | [], cores, availableCores => some (cores, availableCores)
  | p :: candidates, cores, availableCores => do
    let (cores, availableCores) ←
      if availableCores > maxUnits ∧ ¬(cores p).markedForFcoDeconfig then
        if fused then (deconfigFcByFco cores p).map fun cores => (cores, subSize availableCores 2)
        else some (deconfigCoreByFco cores p, subSize availableCores 1)
      else some (cores, availableCores)
    if availableCores ≤ maxUnits then some (cores, availableCores)
    else coreLoop fused maxUnits candidates cores availableCores

/-- The loop over the processors. -/
def procLoop (fused : Bool) (ideal : Nat) :
    List ProcFcoMetadata → Cores → Nat → Nat → Option (List ProcFcoMetadata × Cores)
  | [], cores, _, _ => some ([], cores)
  | proc :: procs, cores, extra, debt =>
    let (maxUnits, extra, debt) :=
      calculateMaxUnitsForProc fused ideal proc.availableCores procs.isEmpty extra debt
    if proc.availableCores ≤ maxUnits then do
      let (procs, cores) ← procLoop fused ideal procs cores extra debt
      some (proc :: procs, cores)
    else do
      let candidates ← sortCandidates cores proc.coreCandidateList
      let (cores, availableCores) ← coreLoop fused maxUnits candidates cores proc.availableCores
      let (procs, cores) ← procLoop fused ideal procs cores extra debt
      some ({ proc with availableCores := availableCores, coreCandidateList := candidates } :: procs,
        cores)

def applyFieldCoreOverrides (fused : Bool) (fcoData : FcoRestrictMetadata) (cores : Cores) :
    Option (FcoRestrictMetadata × Cores) :=
  if getFcoBasedOnCoreType fused fcoData.fcoValue = 0 then some (fcoData, cores)
  else do
    let (procs, ideal, extra) := calculateIdealRemainingUnitsPerProc fused fcoData
    let (procs, cores) ← procLoop fused ideal (QSort.sort bootFirst procs) cores extra 0
    some ({ fcoData with procFcoMetadataList := procs }, cores)

/-! ## The ideal share -/

/-- The processors with more cores than the ideal share. -/
def above (ideal : Nat) (procs : List ProcFcoMetadata) : Nat :=
  procs.countP fun proc => decide (ideal < proc.availableCores)

/-- The cores of the other processors, which keep them all. -/
def kept (ideal : Nat) (procs : List ProcFcoMetadata) : Nat :=
  (procs.map fun proc => if proc.availableCores ≤ ideal then proc.availableCores else 0).sum

def total (procs : List ProcFcoMetadata) : Nat := (procs.map ProcFcoMetadata.availableCores).sum

section
variable {ideal : Nat} {proc : ProcFcoMetadata} {procs : List ProcFcoMetadata}

theorem above_cons_of_le (h : proc.availableCores ≤ ideal) :
    above ideal (proc :: procs) = above ideal procs := by
  unfold above
  rw [countP_cons_of_neg]
  simpa using h

theorem above_cons_of_lt (h : ideal < proc.availableCores) :
    above ideal (proc :: procs) = above ideal procs + 1 := by
  unfold above
  rw [countP_cons_of_pos]
  simpa using h

theorem kept_cons_of_le (h : proc.availableCores ≤ ideal) :
    kept ideal (proc :: procs) = proc.availableCores + kept ideal procs := by
  unfold kept
  rw [map_cons, sum_cons, if_pos h]

theorem kept_cons_of_lt (h : ideal < proc.availableCores) :
    kept ideal (proc :: procs) = kept ideal procs := by
  unfold kept
  rw [map_cons, sum_cons, if_neg (Nat.not_le.mpr h), Nat.zero_add]

theorem total_cons : total (proc :: procs) = proc.availableCores + total procs := by
  unfold total
  rw [map_cons, sum_cons]

theorem above_of_forall_lt (h : ∀ proc ∈ procs, ideal < proc.availableCores) :
    above ideal procs = procs.length := by
  unfold above
  exact countP_eq_length.mpr fun proc hmem => by simpa using h proc hmem

theorem kept_of_forall_lt (h : ∀ proc ∈ procs, ideal < proc.availableCores) :
    kept ideal procs = 0 := by
  induction procs with
  | nil => rfl
  | cons proc procs ih =>
    rw [kept_cons_of_lt (h proc mem_cons_self)]
    exact ih fun proc hmem => h proc (mem_cons_of_mem _ hmem)

theorem kept_add_above_le_total (ideal : Nat) (procs : List ProcFcoMetadata) :
    kept ideal procs + above ideal procs * (ideal + 1) ≤ total procs := by
  induction procs with
  | nil => simp [kept, above, total]
  | cons proc procs ih =>
    rw [total_cons]
    rcases Nat.lt_or_ge ideal proc.availableCores with hlt | hle
    · rw [kept_cons_of_lt hlt, above_cons_of_lt hlt, Nat.add_mul]
      omega
    · rw [kept_cons_of_le hle, above_cons_of_le hle]
      omega

end

theorem kept_perm {ideal : Nat} {procs procs' : List ProcFcoMetadata} (h : procs.Perm procs') :
    kept ideal procs = kept ideal procs' := (h.map _).sum_nat

theorem above_perm {ideal : Nat} {procs procs' : List ProcFcoMetadata} (h : procs.Perm procs') :
    above ideal procs = above ideal procs' := h.countP_eq _

theorem total_perm {procs procs' : List ProcFcoMetadata} (h : procs.Perm procs') :
    total procs = total procs' := (h.map _).sum_nat

/-- What the ideal share and the extra units are good for: either nobody has
more than the share, or the processors above it share what the others leave of
the FCO value, and the extra units are fewer than they are. -/
def Fair (fco ideal extra : Nat) (procs : List ProcFcoMetadata) : Prop :=
  (above ideal procs = 0 ∧ total procs ≤ fco) ∨
    (kept ideal procs + above ideal procs * ideal + extra = fco ∧ extra < above ideal procs)

theorem idealLoop_of_forall_lt {procs : List ProcFcoMetadata} {s : Ideal}
    (h : ∀ proc ∈ procs, s.ideal < proc.availableCores) : idealLoop procs s = s := by
  induction procs with
  | nil => rfl
  | cons proc procs ih =>
    unfold idealLoop
    rw [if_neg (Nat.not_le.mpr (h proc mem_cons_self))]
    exact ih fun proc hmem => h proc (mem_cons_of_mem _ hmem)

/-- Handing out no more than the ideal share leaves at least that share for
each of the others. -/
theorem ideal_le_next {fco n avail : Nat} (hn : 0 < n) (havail : avail ≤ fco / (n + 1)) :
    fco / (n + 1) ≤ (fco - avail) / n := by
  rw [Nat.le_div_iff_mul_le hn]
  have hmul : fco / (n + 1) * (n + 1) ≤ fco := Nat.div_mul_le_self _ _
  rw [Nat.mul_add, Nat.mul_one] at hmul
  omega

/-- The loop, from a place at which every processor so far was below the
share.  The processors are sorted, so one that is above it is followed by such
processors only. -/
theorem idealLoop_fair {procs : List ProcFcoMetadata} {fco : Nat} (hne : procs ≠ [])
    (hsorted : procs.Pairwise fun a b => a.availableCores ≤ b.availableCores) :
    fco / procs.length
        ≤ (idealLoop procs ⟨procs.length, fco, fco / procs.length, fco % procs.length⟩).ideal ∧
      Fair fco (idealLoop procs ⟨procs.length, fco, fco / procs.length, fco % procs.length⟩).ideal
        (idealLoop procs ⟨procs.length, fco, fco / procs.length, fco % procs.length⟩).extra
        procs := by
  induction procs generalizing fco with
  | nil => exact absurd rfl hne
  | cons proc procs ih =>
    have htail := (pairwise_cons.mp hsorted).2
    have hhead := (pairwise_cons.mp hsorted).1
    rcases Nat.lt_or_ge (fco / (proc :: procs).length) proc.availableCores with hlt | hle
    · -- every processor from here on is above the share
      have hall : ∀ p ∈ proc :: procs, fco / (proc :: procs).length < p.availableCores := by
        intro p hp
        rcases mem_cons.mp hp with rfl | hp
        · exact hlt
        · exact Nat.lt_of_lt_of_le hlt (hhead p hp)
      rw [idealLoop_of_forall_lt hall]
      refine ⟨Nat.le_refl _, Or.inr ⟨?_, ?_⟩⟩
      · rw [kept_of_forall_lt hall, above_of_forall_lt hall, Nat.zero_add]
        exact Nat.div_add_mod _ _
      · rw [above_of_forall_lt hall]
        exact Nat.mod_lt _ (Nat.succ_pos _)
    · unfold idealLoop
      rw [if_pos hle]
      dsimp only
      rw [length_cons, Nat.add_sub_cancel]
      have hfco : proc.availableCores ≤ fco :=
        Nat.le_trans hle (Nat.div_le_self _ _)
      by_cases hnil : procs = []
      · -- the last processor: the source leaves the loop
        subst hnil
        rw [length_nil, if_pos rfl]
        refine ⟨Nat.le_refl _, Or.inl ⟨?_, ?_⟩⟩
        · exact @above_cons_of_le _ proc [] hle
        · rw [total_cons]
          exact hfco
      · have hlen : procs.length ≠ 0 := fun h => hnil (length_eq_zero_iff.mp h)
        rw [if_neg hlen]
        have hstep : fco / (procs.length + 1) ≤ (fco - proc.availableCores) / procs.length :=
          ideal_le_next (Nat.pos_of_ne_zero hlen) hle
        have hih := @ih (fco - proc.availableCores) hnil htail
        have hle' := Nat.le_trans hle (Nat.le_trans hstep hih.1)
        refine ⟨Nat.le_trans hstep hih.1, ?_⟩
        unfold Fair at hih ⊢
        rw [above_cons_of_le hle', kept_cons_of_le hle', total_cons]
        rcases hih.2 with ⟨habove, htotal⟩ | ⟨hsum, hextra⟩
        · exact Or.inl ⟨habove, by omega⟩
        · exact Or.inr ⟨by omega, hextra⟩

theorem Fair.perm {fco ideal extra : Nat} {procs procs' : List ProcFcoMetadata}
    (h : Fair fco ideal extra procs) (hperm : procs.Perm procs') : Fair fco ideal extra procs' := by
  unfold Fair at h ⊢
  rw [← above_perm hperm, ← kept_perm hperm, ← total_perm hperm]
  exact h

theorem calculateIdealRemainingUnitsPerProc_fair (fused : Bool) {fcoData : FcoRestrictMetadata}
    (hne : fcoData.procFcoMetadataList ≠ []) :
    (calculateIdealRemainingUnitsPerProc fused fcoData).1.Perm fcoData.procFcoMetadataList ∧
      Fair (getFcoBasedOnCoreType fused fcoData.fcoValue)
        (calculateIdealRemainingUnitsPerProc fused fcoData).2.1
        (calculateIdealRemainingUnitsPerProc fused fcoData).2.2
        fcoData.procFcoMetadataList := by
  have hperm := QSort.sort_perm byAvailableCores fcoData.procFcoMetadataList
  have hsorted : (QSort.sort byAvailableCores fcoData.procFcoMetadataList).Pairwise
      fun a b => a.availableCores ≤ b.availableCores := by
    refine (QSort.sort_pairwise byAvailableCores _ ?_ ?_).imp ?_
    · simp only [byAvailableCores, decide_eq_true_eq, decide_eq_false_iff_not]
      omega
    · simp only [byAvailableCores, decide_eq_false_iff_not]
      omega
    · simp only [byAvailableCores, decide_eq_false_iff_not]
      omega
  have hne' : QSort.sort byAvailableCores fcoData.procFcoMetadataList ≠ [] := by
    intro hnil
    rw [hnil] at hperm
    exact hne hperm.symm.eq_nil
  refine ⟨hperm, ?_⟩
  have hfair := (@idealLoop_fair _ (getFcoBasedOnCoreType fused fcoData.fcoValue) hne'
    hsorted).2
  unfold calculateIdealRemainingUnitsPerProc
  dsimp only
  rw [← hperm.length_eq]
  exact hfair.perm hperm

/-! ## The shares of the processors -/

/-- The units that the processors of a list may keep, one after the other. -/
def shares (fused : Bool) (ideal : Nat) : List ProcFcoMetadata → Nat → Nat → List Nat
  | [], _, _ => []
  | proc :: procs, extra, debt =>
    (calculateMaxUnitsForProc fused ideal proc.availableCores procs.isEmpty extra debt).1
      :: shares fused ideal procs
        (calculateMaxUnitsForProc fused ideal proc.availableCores procs.isEmpty extra debt).2.1
        (calculateMaxUnitsForProc fused ideal proc.availableCores procs.isEmpty extra debt).2.2

/-- A share that a processor can be brought down to. -/
def Fits (fused : Bool) (share : Nat) (proc : ProcFcoMetadata) : Prop :=
  share ≤ proc.availableCores ∧ (fused = true → share % 2 = 0)

section
variable {ideal avail extra debt : Nat} {last : Bool}

theorem maxUnits_of_le {fused : Bool} (h : avail ≤ ideal) :
    calculateMaxUnitsForProc fused ideal avail last extra debt = (avail, extra, debt) := by
  unfold calculateMaxUnitsForProc
  rw [if_pos h]

theorem maxUnits_small_extra (h : ideal < avail) :
    calculateMaxUnitsForProc false ideal avail last (extra + 1) debt = (ideal + 1, extra, debt) := by
  unfold calculateMaxUnitsForProc
  rw [if_neg (Nat.not_le.mpr h), if_pos (Nat.succ_pos _), if_neg (by simp)]
  rfl

theorem maxUnits_small (h : ideal < avail) :
    calculateMaxUnitsForProc false ideal avail last 0 0 = (ideal, 0, 0) := by
  unfold calculateMaxUnitsForProc
  rw [if_neg (Nat.not_le.mpr h), if_neg (Nat.lt_irrefl 0), if_neg (by simp), if_neg (by simp)]

theorem maxUnits_even_extra (h : ideal < avail) (heven : ideal % 2 = 0) :
    calculateMaxUnitsForProc true ideal avail last (extra + 2) debt = (ideal + 2, extra, debt) := by
  unfold calculateMaxUnitsForProc
  rw [if_neg (Nat.not_le.mpr h), if_pos (Nat.succ_pos _), if_pos ⟨rfl, by omega, by omega⟩]
  rfl

theorem maxUnits_even (h : ideal < avail) (heven : ideal % 2 = 0) :
    calculateMaxUnitsForProc true ideal avail last 0 0 = (ideal, 0, 0) := by
  unfold calculateMaxUnitsForProc
  rw [if_neg (Nat.not_le.mpr h), if_neg (Nat.lt_irrefl 0), if_neg (by simp),
    if_neg fun hodd => hodd.1 heven]

theorem maxUnits_odd_extra (h : ideal < avail) (hodd : ideal % 2 = 1) :
    calculateMaxUnitsForProc true ideal avail last (extra + 1) debt = (ideal + 1, extra, debt) := by
  unfold calculateMaxUnitsForProc
  rw [if_neg (Nat.not_le.mpr h), if_pos (Nat.succ_pos _),
    if_neg fun hne => absurd hne.2.1 (by omega)]
  rfl

theorem maxUnits_odd_pay (h : ideal < avail) (hodd : ideal % 2 = 1) (hsize : ideal < 2 ^ 64) :
    calculateMaxUnitsForProc true ideal avail last 0 1 = (ideal - 1, 0, 0) := by
  unfold calculateMaxUnitsForProc
  rw [if_neg (Nat.not_le.mpr h), if_neg (Nat.lt_irrefl 0), if_pos Nat.one_ne_zero,
    subSize_of_le (by omega) hsize]

theorem maxUnits_odd_borrow (h : ideal < avail) (hodd : ideal % 2 = 1) :
    calculateMaxUnitsForProc true ideal avail false 0 0 = (ideal + 1, 0, 1) := by
  unfold calculateMaxUnitsForProc
  rw [if_neg (Nat.not_le.mpr h), if_neg (Nat.lt_irrefl 0), if_neg (by simp),
    if_pos ⟨by omega, rfl, by simp⟩]

end

theorem shares_cons {fused : Bool} {ideal extra extra' debt debt' units : Nat}
    {proc : ProcFcoMetadata} {procs : List ProcFcoMetadata}
    (h : calculateMaxUnitsForProc fused ideal proc.availableCores procs.isEmpty extra debt
      = (units, extra', debt')) :
    shares fused ideal (proc :: procs) extra debt
      = units :: shares fused ideal procs extra' debt' := by
  rw [shares, h]

/-- Small cores: the extra units go to the first processors above the ideal
share. -/
theorem shares_small {ideal extra : Nat} {procs : List ProcFcoMetadata}
    (hextra : extra ≤ above ideal procs) :
    (shares false ideal procs extra 0).sum = kept ideal procs + above ideal procs * ideal + extra ∧
      List.Forall₂ (Fits false) (shares false ideal procs extra 0) procs := by
  induction procs generalizing extra with
  | nil =>
    have hzero : extra = 0 := Nat.le_zero.mp hextra
    subst hzero
    exact ⟨by simp [shares, kept, above], .nil⟩
  | cons proc procs ih =>
    rcases Nat.lt_or_ge ideal proc.availableCores with hlt | hle
    · rw [above_cons_of_lt hlt] at hextra
      rw [kept_cons_of_lt hlt, above_cons_of_lt hlt, Nat.add_mul, Nat.one_mul]
      cases extra with
      | zero =>
        rw [shares_cons (maxUnits_small hlt), sum_cons]
        obtain ⟨hsum, hfits⟩ := @ih 0 (Nat.zero_le _)
        exact ⟨by omega, .cons ⟨by omega, fun h => by cases h⟩ hfits⟩
      | succ extra =>
        rw [shares_cons (maxUnits_small_extra hlt), sum_cons]
        obtain ⟨hsum, hfits⟩ := @ih extra (by omega)
        exact ⟨by omega, .cons ⟨hlt, fun h => by cases h⟩ hfits⟩
    · rw [above_cons_of_le hle] at hextra
      rw [shares_cons (maxUnits_of_le hle), sum_cons, kept_cons_of_le hle, above_cons_of_le hle]
      obtain ⟨hsum, hfits⟩ := ih hextra
      exact ⟨by omega, .cons ⟨Nat.le_refl _, fun h => by cases h⟩ hfits⟩

/-- Fused cores and an even share: the extra units are even too, and they go
out in pairs. -/
theorem shares_even {ideal extra : Nat} {procs : List ProcFcoMetadata}
    (hpairs : ∀ proc ∈ procs, proc.availableCores % 2 = 0) (heven : ideal % 2 = 0)
    (hextra : extra ≤ 2 * above ideal procs) (heven' : extra % 2 = 0) :
    (shares true ideal procs extra 0).sum = kept ideal procs + above ideal procs * ideal + extra ∧
      List.Forall₂ (Fits true) (shares true ideal procs extra 0) procs := by
  induction procs generalizing extra with
  | nil =>
    have hzero : extra = 0 := Nat.le_zero.mp hextra
    subst hzero
    exact ⟨by simp [shares, kept, above], .nil⟩
  | cons proc procs ih =>
    have hpair := hpairs proc mem_cons_self
    have hih := fun e => @ih e fun p hp => hpairs p (mem_cons_of_mem _ hp)
    rcases Nat.lt_or_ge ideal proc.availableCores with hlt | hle
    · rw [above_cons_of_lt hlt] at hextra
      rw [kept_cons_of_lt hlt, above_cons_of_lt hlt, Nat.add_mul, Nat.one_mul]
      cases extra with
      | zero =>
        rw [shares_cons (maxUnits_even hlt heven), sum_cons]
        obtain ⟨hsum, hfits⟩ := hih 0 (Nat.zero_le _) rfl
        exact ⟨by omega, .cons ⟨by omega, fun _ => heven⟩ hfits⟩
      | succ extra =>
        obtain ⟨extra, rfl⟩ : ∃ e, extra = e + 1 := ⟨extra - 1, by omega⟩
        rw [shares_cons (maxUnits_even_extra hlt heven), sum_cons]
        obtain ⟨hsum, hfits⟩ := hih extra (by omega) (by omega)
        exact ⟨by omega, .cons ⟨by omega, fun _ => by omega⟩ hfits⟩
    · rw [above_cons_of_le hle] at hextra
      rw [shares_cons (maxUnits_of_le hle), sum_cons, kept_cons_of_le hle, above_cons_of_le hle]
      obtain ⟨hsum, hfits⟩ := hih extra hextra heven'
      exact ⟨by omega, .cons ⟨Nat.le_refl _, fun _ => hpair⟩ hfits⟩

/-- Fused cores and an odd share: once the extra units are gone, an even number
of processors is left, which borrow and pay back in turns.  A debt means that
one more of them has to pay than may still borrow. -/
theorem shares_odd {ideal extra debt : Nat} {procs : List ProcFcoMetadata}
    (hpairs : ∀ proc ∈ procs, proc.availableCores % 2 = 0) (hodd : ideal % 2 = 1)
    (hsize : ideal < 2 ^ 64) (hextra : extra + debt ≤ above ideal procs) (hdebt : debt ≤ 1)
    (hfirst : debt = 0 ∨ extra = 0) (hparity : (above ideal procs + extra + debt) % 2 = 0) :
    (shares true ideal procs extra debt).sum + debt
        = kept ideal procs + above ideal procs * ideal + extra ∧
      List.Forall₂ (Fits true) (shares true ideal procs extra debt) procs := by
  induction procs generalizing extra debt with
  | nil =>
    have hzero : extra + debt = 0 := Nat.le_zero.mp hextra
    obtain ⟨rfl, rfl⟩ : extra = 0 ∧ debt = 0 := by omega
    exact ⟨by simp [shares, kept, above], .nil⟩
  | cons proc procs ih =>
    have hpair := hpairs proc mem_cons_self
    have hih := fun e d => @ih e d fun p hp => hpairs p (mem_cons_of_mem _ hp)
    rcases Nat.lt_or_ge ideal proc.availableCores with hlt | hle
    · rw [above_cons_of_lt hlt] at hextra hparity
      rw [kept_cons_of_lt hlt, above_cons_of_lt hlt, Nat.add_mul, Nat.one_mul]
      cases extra with
      | succ extra =>
        rw [shares_cons (maxUnits_odd_extra hlt hodd), sum_cons]
        obtain ⟨hsum, hfits⟩ := hih extra debt (by omega) hdebt (by omega) (by omega)
        exact ⟨by omega, .cons ⟨by omega, fun _ => by omega⟩ hfits⟩
      | zero =>
        cases debt with
        | zero =>
          -- this one borrows, and the parity leaves somebody behind it to pay
          have hne : procs.isEmpty = false := by
            cases procs with
            | nil => simp [above] at hparity
            | cons _ _ => rfl
          have hborrow : calculateMaxUnitsForProc true ideal proc.availableCores procs.isEmpty 0 0
              = (ideal + 1, 0, 1) := by rw [hne, maxUnits_odd_borrow hlt hodd]
          rw [shares_cons hborrow, sum_cons]
          obtain ⟨hsum, hfits⟩ := hih 0 1 (by omega) (Nat.le_refl _) (Or.inr rfl) (by omega)
          exact ⟨by omega, .cons ⟨by omega, fun _ => by omega⟩ hfits⟩
        | succ debt =>
          obtain rfl : debt = 0 := by omega
          rw [shares_cons (maxUnits_odd_pay hlt hodd hsize), sum_cons]
          obtain ⟨hsum, hfits⟩ := hih 0 0 (Nat.zero_le _) (Nat.zero_le _) (Or.inr rfl) (by omega)
          exact ⟨by omega, .cons ⟨by omega, fun _ => by omega⟩ hfits⟩
    · rw [above_cons_of_le hle] at hextra hparity
      rw [shares_cons (maxUnits_of_le hle), sum_cons, kept_cons_of_le hle, above_cons_of_le hle]
      obtain ⟨hsum, hfits⟩ := hih extra debt hextra hdebt hfirst hparity
      exact ⟨by omega, .cons ⟨Nat.le_refl _, fun _ => hpair⟩ hfits⟩

theorem kept_even {ideal : Nat} {procs : List ProcFcoMetadata}
    (hpairs : ∀ proc ∈ procs, proc.availableCores % 2 = 0) : kept ideal procs % 2 = 0 := by
  induction procs with
  | nil => rfl
  | cons proc procs ih =>
    have hpair := hpairs proc mem_cons_self
    have hrest := ih fun p hp => hpairs p (mem_cons_of_mem _ hp)
    rcases Nat.lt_or_ge ideal proc.availableCores with hlt | hle
    · rw [kept_cons_of_lt hlt]
      exact hrest
    · rw [kept_cons_of_le hle]
      omega

theorem shares_of_forall_le {fused : Bool} {ideal extra : Nat} {procs : List ProcFcoMetadata}
    (hall : ∀ proc ∈ procs, proc.availableCores ≤ ideal)
    (hpairs : fused = true → ∀ proc ∈ procs, proc.availableCores % 2 = 0) :
    (shares fused ideal procs extra 0).sum = total procs ∧
      List.Forall₂ (Fits fused) (shares fused ideal procs extra 0) procs := by
  induction procs with
  | nil => exact ⟨rfl, .nil⟩
  | cons proc procs ih =>
    obtain ⟨hsum, hfits⟩ := ih (fun p hp => hall p (mem_cons_of_mem _ hp))
      fun h p hp => hpairs h p (mem_cons_of_mem _ hp)
    rw [shares_cons (maxUnits_of_le (hall proc mem_cons_self)), sum_cons, total_cons]
    rw [hsum]
    exact ⟨rfl, .cons ⟨Nat.le_refl _, fun h => hpairs h proc mem_cons_self⟩ hfits⟩

/-- The shares add up to the FCO value, or to all cores where there are
fewer. -/
theorem shares_total {fused : Bool} {fco ideal extra : Nat} {procs : List ProcFcoMetadata}
    (hfair : Fair fco ideal extra procs) (hsize : fco < 2 ^ 64)
    (hfused : fused = true → fco % 2 = 0 ∧ ∀ proc ∈ procs, proc.availableCores % 2 = 0) :
    (shares fused ideal procs extra 0).sum = min (total procs) fco ∧
      List.Forall₂ (Fits fused) (shares fused ideal procs extra 0) procs := by
  have hle := kept_add_above_le_total ideal procs
  rw [Nat.mul_add, Nat.mul_one] at hle
  rcases hfair with ⟨hnone, htotal⟩ | ⟨hsum, hextra⟩
  · have hall : ∀ proc ∈ procs, proc.availableCores ≤ ideal := by
      intro proc hmem
      simpa using countP_eq_zero.mp hnone proc hmem
    rw [Nat.min_eq_left htotal]
    exact shares_of_forall_le hall fun h => (hfused h).2
  · rw [Nat.min_eq_right (by omega)]
    cases fused with
    | false =>
      obtain ⟨hshares, hfits⟩ := shares_small (Nat.le_of_lt hextra)
      exact ⟨by omega, hfits⟩
    | true =>
      obtain ⟨hfco, hpairs⟩ := hfused rfl
      have hkept := @kept_even ideal procs hpairs
      rcases Nat.mod_two_eq_zero_or_one ideal with heven | hodd
      · have hmul : above ideal procs * ideal % 2 = 0 := by
          rw [Nat.mul_mod, heven, Nat.mul_zero, Nat.zero_mod]
        have heven' : extra % 2 = 0 := by omega
        obtain ⟨hshares, hfits⟩ := shares_even hpairs heven (by omega) heven'
        exact ⟨by omega, hfits⟩
      · have hmul : above ideal procs * ideal % 2 = above ideal procs % 2 := by
          rw [Nat.mul_mod, hodd, Nat.mul_one, Nat.mod_mod]
        have hideal : ideal < 2 ^ 64 := by
          have hone : 1 * ideal ≤ above ideal procs * ideal :=
            Nat.mul_le_mul_right ideal (by omega)
          omega
        obtain ⟨hshares, hfits⟩ := @shares_odd ideal extra 0 procs hpairs hodd hideal (by omega)
          (Nat.zero_le _) (Or.inl rfl) (by omega)
        exact ⟨by omega, hfits⟩

/-! ## The cores of one processor -/

/-- The cores with those of a list marked. -/
def markAll (cores : Cores) (marked : List CorePtr) : Cores := fun p =>
  if p ∈ marked then { cores p with markedForFcoDeconfig := true } else cores p

/-- The candidates that are not marked. -/
def unmarked (cores : Cores) (candidates : List CorePtr) : Nat :=
  candidates.countP fun p => !(cores p).markedForFcoDeconfig

section
variable {cores : Cores} {marked : List CorePtr} {p : CorePtr}

theorem markAll_nil : markAll cores [] = cores := by
  funext p
  exact if_neg not_mem_nil

theorem deconfigCoreByFco_markAll :
    deconfigCoreByFco (markAll cores marked) p = markAll cores (p :: marked) := by
  funext q
  unfold deconfigCoreByFco markAll
  by_cases hq : q = p
  · subst hq
    rw [Function.update_self, if_pos mem_cons_self]
    split <;> rfl
  · rw [Function.update_of_ne hq]
    simp only [mem_cons, hq, false_or]

@[simp] theorem markAll_fcSiblingCore :
    (markAll cores marked p).fcSiblingCore = (cores p).fcSiblingCore := by
  unfold markAll
  split <;> rfl

@[simp] theorem markAll_priority :
    getCoreFcoPriority (markAll cores marked p) = getCoreFcoPriority (cores p) := by
  unfold markAll
  split <;> rfl

theorem markAll_marked :
    (markAll cores marked p).markedForFcoDeconfig = true
      ↔ p ∈ marked ∨ (cores p).markedForFcoDeconfig = true := by
  unfold markAll
  split
  · rename_i hmem
    exact ⟨fun _ => Or.inl hmem, fun _ => rfl⟩
  · rename_i hmem
    exact ⟨Or.inr, fun h => h.resolve_left hmem⟩

theorem markAll_of_notMem (h : p ∉ marked) : markAll cores marked p = cores p := if_neg h

end

theorem unmarked_perm {cores : Cores} {candidates candidates' : List CorePtr}
    (h : candidates.Perm candidates') : unmarked cores candidates = unmarked cores candidates' :=
  h.countP_eq _

theorem unmarked_markAll {cores : Cores} {marked candidates : List CorePtr}
    (hnodup : candidates.Nodup) (hmarked : marked.Nodup) (hsub : marked ⊆ candidates)
    (hfresh : ∀ p ∈ candidates, (cores p).markedForFcoDeconfig = false) :
    unmarked (markAll cores marked) candidates + marked.length = candidates.length := by
  have hcount : candidates.countP (fun p => (markAll cores marked p).markedForFcoDeconfig)
      = marked.length := by
    rw [countP_eq_length_filter]
    refine List.Perm.length_eq ((perm_ext_iff_of_nodup (hnodup.filter _) hmarked).mpr ?_)
    intro p
    rw [mem_filter, markAll_marked]
    constructor
    · rintro ⟨hp, hp' | hp'⟩
      · exact hp'
      · rw [hfresh p hp] at hp'
        cases hp'
    · exact fun hp => ⟨hsub hp, Or.inl hp⟩
  have hsplit := length_eq_countP_add_countP
    (fun p => (markAll cores marked p).markedForFcoDeconfig) (l := candidates)
  have hnot : unmarked (markAll cores marked) candidates = candidates.countP
      fun p => decide ¬(markAll cores marked p).markedForFcoDeconfig = true := by
    unfold unmarked
    congr 1
    funext p
    cases (markAll cores marked p).markedForFcoDeconfig <;> rfl
  omega

/-- In fused mode the candidates come in pairs of siblings. -/
def Siblings (cores : Cores) (candidates : List CorePtr) : Prop :=
  ∀ p ∈ candidates, ∃ q ∈ candidates, q ≠ p ∧ (cores p).fcSiblingCore = some q ∧
    (cores q).fcSiblingCore = some p

/-- The marked candidates are the first ones, in fused mode with their siblings. -/
def Front (fused : Bool) (cores : Cores) (candidates marked : List CorePtr) : Prop :=
  ∃ done todo, candidates = done ++ todo ∧ ∀ p ∈ candidates, p ∈ marked
    ↔ p ∈ done ∨ fused = true ∧ ∃ q ∈ done, (cores q).fcSiblingCore = some p

/-- The loop over the candidates, from a place at which the cores `marked`
have been marked.  Every candidate before that place is among them, and none is there for
another reason than one before that place. -/
theorem coreLoop_spec {fused : Bool} {maxUnits : Nat} {cores : Cores}
    {candidates done todo marked : List CorePtr} (hsplit : candidates = done ++ todo)
    (hnodup : candidates.Nodup) (hsize : candidates.length < 2 ^ 64)
    (hfresh : ∀ p ∈ candidates, (cores p).markedForFcoDeconfig = false)
    (hpairs : fused = true → Siblings cores candidates ∧ maxUnits % 2 = 0 ∧
      candidates.length % 2 = 0)
    (hmarked : marked.Nodup) (hsub : marked ⊆ candidates) (hdone : ∀ p ∈ done, p ∈ marked)
    (hclosed : fused = true → marked.length % 2 = 0 ∧
      ∀ p ∈ marked, ∀ q, (cores p).fcSiblingCore = some q → q ∈ marked)
    (hfrom : ∀ p ∈ marked,
      p ∈ done ∨ fused = true ∧ ∃ q ∈ done, (cores q).fcSiblingCore = some p)
    (hmax : maxUnits < candidates.length - marked.length) :
    ∃ marked', coreLoop fused maxUnits todo (markAll cores marked)
          (candidates.length - marked.length) = some (markAll cores marked', maxUnits) ∧
      marked'.Nodup ∧ marked' ⊆ candidates ∧ marked'.length + maxUnits = candidates.length ∧
      Front fused cores candidates marked' := by
  induction todo generalizing done marked with
  | nil =>
    -- every candidate would be marked, and there is more than one left
    rw [append_nil] at hsplit
    subst hsplit
    have hlen := hnodup.length_le_of_subset (fun p hp => hdone p hp)
    omega
  | cons p todo ih =>
    have hp : p ∈ candidates := by
      rw [hsplit]
      exact mem_append_right _ mem_cons_self
    have hsplit' : candidates = (done ++ [p]) ++ todo := by
      rw [hsplit, append_assoc]
      rfl
    have hfrom' : ∀ r ∈ marked,
        r ∈ done ++ [p] ∨ fused = true ∧ ∃ q ∈ done ++ [p], (cores q).fcSiblingCore = some r := by
      intro r hr
      rcases hfrom r hr with hr | ⟨hfused, q, hq, hqr⟩
      · exact Or.inl (mem_append_left _ hr)
      · exact Or.inr ⟨hfused, q, mem_append_left _ hq, hqr⟩
    unfold coreLoop
    by_cases hpm : p ∈ marked
    · -- marked together with its sibling
      have htrue : (markAll cores marked p).markedForFcoDeconfig = true :=
        markAll_marked.2 (Or.inl hpm)
      rw [if_neg fun h => h.2 htrue]
      simp only [Option.bind_eq_bind, Option.bind_some]
      rw [if_neg (Nat.not_le.mpr hmax)]
      refine ih hsplit' hmarked hsub (fun q hq => ?_) hclosed hfrom' hmax
      rcases mem_append.mp hq with hq | hq
      · exact hdone q hq
      · rw [mem_singleton.mp hq]
        exact hpm
    · have hfalse : ¬(markAll cores marked p).markedForFcoDeconfig = true := by
        rw [markAll_marked, hfresh p hp]
        simpa using hpm
      rw [if_pos ⟨hmax, hfalse⟩]
      have hdone' : ∀ l, p ∈ l → marked ⊆ l → ∀ q ∈ done ++ [p], q ∈ l := by
        intro l hpl hl q hq
        rcases mem_append.mp hq with hq | hq
        · exact hl (hdone q hq)
        · rw [mem_singleton.mp hq]
          exact hpl
      cases fused with
      | false =>
        rw [if_neg (by simp), deconfigCoreByFco_markAll, subSize_of_le (by omega) (by omega)]
        simp only [Option.bind_eq_bind, Option.bind_some]
        have hmarked' : (p :: marked).Nodup := nodup_cons.mpr ⟨hpm, hmarked⟩
        have hsub' : p :: marked ⊆ candidates := cons_subset.mpr ⟨hp, hsub⟩
        have hcons : (p :: marked).length = marked.length + 1 := length_cons
        rw [show candidates.length - marked.length - 1
          = candidates.length - (p :: marked).length by omega]
        have hdone'' := hdone' _ mem_cons_self (subset_cons_self _ _)
        have hfrom'' : ∀ r ∈ p :: marked, r ∈ done ++ [p] ∨ false = true ∧
            ∃ q ∈ done ++ [p], (cores q).fcSiblingCore = some r := by
          intro r hr
          rcases mem_cons.mp hr with rfl | hr
          · exact Or.inl (mem_append_right _ mem_cons_self)
          · exact hfrom' r hr
        split
        · rename_i hle
          refine ⟨p :: marked, ?_, hmarked', hsub', ?_, done ++ [p], todo, hsplit', fun r _ => ?_⟩
          · rw [show candidates.length - (p :: marked).length = maxUnits by omega]
          · omega
          · exact ⟨hfrom'' r, fun h => h.elim (hdone'' r) fun h => nomatch h.1⟩
        · rename_i hlt
          exact ih hsplit' hmarked' hsub' hdone'' (fun h => by cases h) hfrom'' (Nat.not_le.mp hlt)
      | true =>
        obtain ⟨hsiblings, hmod, hmod'⟩ := hpairs rfl
        obtain ⟨hmod'', hback⟩ := hclosed rfl
        obtain ⟨q, hq, hne, hpq, hqp⟩ := hsiblings p hp
        have hqm : q ∉ marked := fun hqm => hpm (hback q hqm p hqp)
        rw [if_pos rfl]
        unfold deconfigFcByFco
        rw [markAll_fcSiblingCore, hpq, Option.map_some, Option.map_some,
          deconfigCoreByFco_markAll, deconfigCoreByFco_markAll,
          subSize_of_le (by omega) (by omega)]
        simp only [Option.bind_eq_bind, Option.bind_some]
        have hmarked' : (q :: p :: marked).Nodup :=
          nodup_cons.mpr ⟨by simp [hne, hqm], nodup_cons.mpr ⟨hpm, hmarked⟩⟩
        have hsub' : q :: p :: marked ⊆ candidates :=
          cons_subset.mpr ⟨hq, cons_subset.mpr ⟨hp, hsub⟩⟩
        have hcons : (q :: p :: marked).length = marked.length + 2 := by
          rw [length_cons, length_cons]
        rw [show candidates.length - marked.length - 2
          = candidates.length - (q :: p :: marked).length by omega]
        have hdone'' : ∀ r ∈ done ++ [p], r ∈ q :: p :: marked :=
          hdone' _ (by simp) fun r hr => mem_cons_of_mem _ (mem_cons_of_mem _ hr)
        have hback' : ∀ r ∈ q :: p :: marked, ∀ r', (cores r).fcSiblingCore = some r' →
            r' ∈ q :: p :: marked := by
          intro r hr r' hr'
          rcases mem_cons.mp hr with rfl | hr
          · rw [hqp] at hr'
            cases hr'
            simp
          · rcases mem_cons.mp hr with rfl | hr
            · rw [hpq] at hr'
              cases hr'
              simp
            · exact mem_cons_of_mem _ (mem_cons_of_mem _ (hback r hr r' hr'))
        have hpin : p ∈ done ++ [p] := mem_append_right _ mem_cons_self
        have hfrom'' : ∀ r ∈ q :: p :: marked, r ∈ done ++ [p] ∨ true = true ∧
            ∃ q ∈ done ++ [p], (cores q).fcSiblingCore = some r := by
          intro r hr
          rcases mem_cons.mp hr with rfl | hr
          · exact Or.inr ⟨rfl, p, hpin, hpq⟩
          · rcases mem_cons.mp hr with rfl | hr
            · exact Or.inl hpin
            · exact hfrom' r hr
        split
        · rename_i hle
          refine ⟨q :: p :: marked, ?_, hmarked', hsub', ?_, done ++ [p], todo, hsplit',
            fun r _ => ⟨hfrom'' r, ?_⟩⟩
          · rw [show candidates.length - (q :: p :: marked).length = maxUnits by omega]
          · omega
          · rintro (hr | ⟨-, r', hr', hsibling⟩)
            · exact hdone'' r hr
            · exact hback' r' (hdone'' r' hr') r hsibling
        · rename_i hlt
          exact ih hsplit' hmarked' hsub' hdone'' (fun _ => ⟨by omega, hback'⟩) hfrom''
            (Nat.not_le.mp hlt)

/-! ## All processors -/

theorem Siblings.even {cores : Cores} {candidates : List CorePtr} (hnodup : candidates.Nodup)
    (h : Siblings cores candidates) : candidates.length % 2 = 0 := by
  induction hlen : candidates.length using Nat.strongRecOn generalizing candidates with
  | ind n ih =>
    cases candidates with
    | nil =>
      rw [← hlen]
      rfl
    | cons p rest =>
      obtain ⟨hp, hrest⟩ := nodup_cons.mp hnodup
      obtain ⟨q, hq, hne, hpq, hqp⟩ := h p mem_cons_self
      have hq : q ∈ rest := (mem_cons.mp hq).resolve_left hne
      have hlen' := length_erase_of_mem hq
      have hpos := length_pos_of_mem hq
      rw [length_cons] at hlen
      have hsiblings : Siblings cores (rest.erase q) := by
        intro r hr
        obtain ⟨hrq, hrm⟩ := hrest.mem_erase_iff.mp hr
        obtain ⟨r', hr', hne', hrr', hr'r⟩ := h r (mem_cons_of_mem _ hrm)
        have hr'p : r' ≠ p := by
          rintro rfl
          rw [hpq, Option.some.injEq] at hr'r
          exact hrq hr'r.symm
        have hr'q : r' ≠ q := by
          rintro rfl
          rw [hqp, Option.some.injEq] at hr'r
          rw [hr'r] at hp
          exact hp hrm
        have hmem := (mem_cons.mp hr').resolve_left hr'p
        exact ⟨r', hrest.mem_erase_iff.mpr ⟨hr'q, hmem⟩, hne', hrr', hr'r⟩
      have heven := ih (rest.erase q).length (by omega) (hrest.erase q) hsiblings rfl
      omega

/-- What the caller guarantees of a processor. -/
structure Ready (fused : Bool) (cores : Cores) (proc : ProcFcoMetadata) : Prop where
  available : proc.availableCores = proc.coreCandidateList.length
  once : proc.coreCandidateList.Nodup
  units : (proc.coreCandidateList.map fun p => (cores p).chipUnit).Nodup
  below : ∀ p ∈ proc.coreCandidateList, (cores p).chipUnit < NUM_CORE_PER_CHIP
  fresh : ∀ p ∈ proc.coreCandidateList, (cores p).markedForFcoDeconfig = false
  siblings : fused = true → Siblings cores proc.coreCandidateList

/-- What the caller guarantees of the whole input: the FCO value has 32 bits,
one processor is the boot processor, and no metadata of a core is shared. -/
structure Given (fused : Bool) (fcoData : FcoRestrictMetadata) (cores : Cores) : Prop where
  nonempty : fcoData.procFcoMetadataList ≠ []
  boot : fcoData.procFcoMetadataList.countP ProcFcoMetadata.isBootProc = 1
  ready : ∀ proc ∈ fcoData.procFcoMetadataList, Ready fused cores proc
  once : (fcoData.procFcoMetadataList.flatMap ProcFcoMetadata.coreCandidateList).Nodup
  fcoValue : fcoData.fcoValue < 2 ^ 32

section
variable {fused : Bool} {cores : Cores} {proc : ProcFcoMetadata}

theorem Ready.length_le (h : Ready fused cores proc) :
    proc.coreCandidateList.length ≤ NUM_CORE_PER_CHIP := by
  have hsub : (proc.coreCandidateList.map fun p => (cores p).chipUnit)
      ⊆ List.range NUM_CORE_PER_CHIP := by
    intro unit hunit
    obtain ⟨p, hp, rfl⟩ := mem_map.mp hunit
    exact mem_range.mpr (h.below p hp)
  have hle := h.units.length_le_of_subset hsub
  rwa [length_map, length_range] at hle

theorem Ready.even (h : Ready fused cores proc) (hfused : fused = true) :
    proc.availableCores % 2 = 0 := by
  rw [h.available]
  exact (h.siblings hfused).even h.once

theorem Ready.unmarked_eq (h : Ready fused cores proc) :
    unmarked cores proc.coreCandidateList = proc.availableCores := by
  rw [h.available]
  unfold unmarked
  exact countP_eq_length.mpr fun p hp => by rw [h.fresh p hp]; rfl

theorem Ready.of_disjoint (h : Ready fused cores proc) {marked : List CorePtr}
    (hdisjoint : ∀ p ∈ proc.coreCandidateList, p ∉ marked) :
    Ready fused (markAll cores marked) proc := by
  have hsame : ∀ p ∈ proc.coreCandidateList, markAll cores marked p = cores p :=
    fun p hp => markAll_of_notMem (hdisjoint p hp)
  refine ⟨h.available, h.once, ?_, ?_, ?_, ?_⟩
  · rw [map_congr_left fun p hp => by rw [hsame p hp]]
    exact h.units
  · intro p hp
    rw [hsame p hp]
    exact h.below p hp
  · intro p hp
    rw [hsame p hp]
    exact h.fresh p hp
  · intro hfused p hp
    obtain ⟨q, hq, hne, hpq, hqp⟩ := h.siblings hfused p hp
    exact ⟨q, hq, hne, by rwa [markAll_fcSiblingCore], by rwa [markAll_fcSiblingCore]⟩

theorem Ready.sort (h : Ready fused cores proc) :
    ∃ candidates, sortCandidates cores proc.coreCandidateList = some candidates ∧
      candidates.Perm proc.coreCandidateList := by
  have hsome : ∀ p ∈ proc.coreCandidateList, (getCoreFcoPriority (cores p)).isSome := by
    intro p hp
    unfold getCoreFcoPriority
    split
    · rfl
    · have hlt := h.below p hp
      rw [if_pos hlt, getElem?_eq_getElem hlt]
      rfl
  exact ⟨_, if_pos (Or.inr hsome), QSort.sort_perm _ _⟩

end

theorem unmarked_markAll_of_disjoint {cores : Cores} {marked candidates : List CorePtr}
    (hdisjoint : ∀ p ∈ candidates, p ∉ marked) :
    unmarked (markAll cores marked) candidates = unmarked cores candidates := by
  unfold unmarked
  exact countP_congr fun p hp => by rw [markAll_of_notMem (hdisjoint p hp)]

theorem markAll_markAll {cores : Cores} {marked marked' : List CorePtr} :
    markAll (markAll cores marked) marked' = markAll cores (marked' ++ marked) := by
  funext p
  unfold markAll
  by_cases h' : p ∈ marked' <;> by_cases h : p ∈ marked <;> simp [h, h']

/-- Two records of one processor. -/
def SameProc (proc proc' : ProcFcoMetadata) : Prop :=
  proc'.procId = proc.procId ∧ proc'.isBootProc = proc.isBootProc ∧
    proc'.coreCandidateList.Perm proc.coreCandidateList

/-- The marked candidates of a processor are the first ones in the order of their
priorities. -/
def Chosen (fused : Bool) (cores : Cores) (marked : List CorePtr) (proc : ProcFcoMetadata) : Prop :=
  ∃ candidates, sortCandidates cores proc.coreCandidateList = some candidates ∧
    Front fused cores candidates marked

theorem perm_of_sortCandidates {cores : Cores} {candidates candidates' : List CorePtr}
    (h : sortCandidates cores candidates = some candidates') : candidates'.Perm candidates := by
  unfold sortCandidates at h
  split at h
  · rw [← Option.some.inj h]
    exact QSort.sort_perm _ _
  · cases h

theorem sortCandidates_markAll {cores : Cores} {marked candidates : List CorePtr} :
    sortCandidates (markAll cores marked) candidates = sortCandidates cores candidates := by
  unfold sortCandidates
  simp only [markAll_priority]

theorem Front.congr {fused : Bool} {cores cores' : Cores} {candidates marked marked' : List CorePtr}
    (h : Front fused cores candidates marked)
    (hsibling : ∀ p, (cores' p).fcSiblingCore = (cores p).fcSiblingCore)
    (hsame : ∀ p ∈ candidates, p ∈ marked' ↔ p ∈ marked) :
    Front fused cores' candidates marked' := by
  obtain ⟨done, todo, hsplit, hmarked⟩ := h
  refine ⟨done, todo, hsplit, fun p hp => ?_⟩
  simp only [hsibling]
  rw [hsame p hp]
  exact hmarked p hp

/-- The loop over the processors brings each of them down to its share. -/
theorem procLoop_spec {fused : Bool} {ideal extra debt : Nat} {procs : List ProcFcoMetadata}
    {cores : Cores} (hready : ∀ proc ∈ procs, Ready fused cores proc)
    (honce : (procs.flatMap ProcFcoMetadata.coreCandidateList).Nodup)
    (hfits : List.Forall₂ (Fits fused) (shares fused ideal procs extra debt) procs) :
    ∃ procs' marked, procLoop fused ideal procs cores extra debt
        = some (procs', markAll cores marked) ∧
      marked ⊆ procs.flatMap ProcFcoMetadata.coreCandidateList ∧
      List.Forall₂ SameProc procs procs' ∧
      procs'.map ProcFcoMetadata.availableCores = shares fused ideal procs extra debt ∧
      (∀ proc ∈ procs',
        proc.availableCores = unmarked (markAll cores marked) proc.coreCandidateList) ∧
      ∀ proc ∈ procs, Chosen fused cores marked proc := by
  induction procs generalizing cores extra debt with
  | nil =>
    refine ⟨[], [], ?_, List.Subset.refl _, .nil, rfl, fun _ h => absurd h not_mem_nil,
      fun _ h => absurd h not_mem_nil⟩
    rw [markAll_nil]
    rfl
  | cons proc procs ih =>
    unfold shares at hfits ⊢
    unfold procLoop
    generalize calculateMaxUnitsForProc fused ideal proc.availableCores procs.isEmpty extra debt
      = r at hfits ⊢
    obtain ⟨share, extra', debt'⟩ := r
    dsimp only at hfits ⊢
    obtain ⟨hle, heven⟩ := (forall₂_cons.mp hfits).1
    have hfits' := (forall₂_cons.mp hfits).2
    have hproc := hready proc mem_cons_self
    rw [flatMap_cons] at honce
    obtain ⟨_, honce', hapart⟩ := nodup_append.mp honce
    have hrest : ∀ p ∈ procs, Ready fused cores p :=
      fun p hp => hready p (mem_cons_of_mem _ hp)
    obtain ⟨candidates, hsort, hperm⟩ := hproc.sort
    by_cases hkeep : proc.availableCores ≤ share
    · obtain ⟨procs', marked, hloop, hsub, hsame, hshares, hleft, hchosen⟩ := ih hrest honce' hfits'
      rw [if_pos hkeep, hloop]
      refine ⟨proc :: procs', marked, rfl, fun p hp => mem_append_right _ (hsub hp),
        .cons ⟨rfl, rfl, .refl _⟩ hsame, ?_, ?_, forall_mem_cons.mpr ⟨?_, hchosen⟩⟩
      · rw [map_cons, hshares, Nat.le_antisymm hkeep hle]
      · intro p hp
        rcases mem_cons.mp hp with rfl | hp
        · rw [unmarked_markAll_of_disjoint fun q hq hqm => hapart q hq q (hsub hqm) rfl]
          exact hproc.unmarked_eq.symm
        · exact hleft p hp
      · -- no candidate is marked
        refine ⟨candidates, hsort, [], candidates, rfl, fun p hp => ?_⟩
        refine iff_of_false (fun hpm => hapart p (hperm.mem_iff.mp hp) p (hsub hpm) rfl) ?_
        rintro (hnil | ⟨-, q, hnil, -⟩) <;> exact absurd hnil not_mem_nil
    · have hlen := hperm.length_eq
      have hcount := hproc.length_le
      have havail := hproc.available
      have hfresh : ∀ p ∈ candidates, (cores p).markedForFcoDeconfig = false :=
        fun p hp => hproc.fresh p (hperm.mem_iff.mp hp)
      have hnodup : candidates.Nodup := hperm.nodup_iff.mpr hproc.once
      obtain ⟨marked, hcore, hmarked, hsub, hcard, hfront⟩ :=
        @coreLoop_spec fused share cores candidates [] candidates [] rfl hnodup (by unfold NUM_CORE_PER_CHIP at hcount; omega) hfresh
        (fun hfused => by
          refine ⟨?_, heven hfused, ?_⟩
          · intro p hp
            obtain ⟨q, hq, hpair⟩ := hproc.siblings hfused p (hperm.mem_iff.mp hp)
            exact ⟨q, hperm.mem_iff.mpr hq, hpair⟩
          · have hpairs := hproc.even hfused
            omega)
        nodup_nil (nil_subset _) (fun p hp => absurd hp not_mem_nil)
        (fun _ => ⟨rfl, fun p hp => absurd hp not_mem_nil⟩)
        (fun p hp => absurd hp not_mem_nil) (by rw [length_nil]; omega)
      rw [markAll_nil, length_nil, Nat.sub_zero, hlen, ← havail] at hcore
      have hsub' : marked ⊆ proc.coreCandidateList := fun p hp => hperm.mem_iff.mp (hsub hp)
      have hready' : ∀ p ∈ procs, Ready fused (markAll cores marked) p := by
        intro p hp
        refine (hrest p hp).of_disjoint fun q hq hqm => ?_
        exact hapart q (hsub' hqm) q (mem_flatMap.mpr ⟨p, hp, hq⟩) rfl
      obtain ⟨procs', marked', hloop, hsub'', hsame, hshares, hleft, hchosen⟩ :=
        ih hready' honce' hfits'
      rw [if_neg hkeep, hsort]
      simp only [Option.bind_eq_bind, Option.bind_some]
      rw [hcore]
      simp only [Option.bind_some]
      rw [hloop]
      rw [markAll_markAll] at hloop hleft ⊢
      refine ⟨{ proc with availableCores := share, coreCandidateList := candidates } :: procs',
        marked' ++ marked, rfl, ?_, .cons ⟨rfl, rfl, hperm⟩ hsame, ?_, ?_,
        forall_mem_cons.mpr ⟨?_, ?_⟩⟩
      · intro p hp
        rcases mem_append.mp hp with hp | hp
        · exact mem_append_right _ (hsub'' hp)
        · exact mem_append_left _ (hsub' hp)
      · rw [map_cons, hshares]
      · intro p hp
        rcases mem_cons.mp hp with rfl | hp
        · dsimp only
          rw [← markAll_markAll, unmarked_markAll_of_disjoint fun q hq hqm =>
            hapart q (hperm.mem_iff.mp hq) q (hsub'' hqm) rfl]
          have hmarks := unmarked_markAll hnodup hmarked hsub hfresh
          omega
        · exact hleft p hp
      · refine ⟨candidates, hsort, hfront.congr (fun _ => rfl) fun p hp => ?_⟩
        rw [mem_append]
        exact or_iff_right fun hpm => hapart p (hperm.mem_iff.mp hp) p (hsub'' hpm) rfl
      · intro proc' hproc'
        obtain ⟨candidates', hsort', hfront'⟩ := hchosen proc' hproc'
        rw [sortCandidates_markAll] at hsort'
        refine ⟨candidates', hsort', hfront'.congr (fun _ => ?_) fun p hp => ?_⟩
        · rw [markAll_fcSiblingCore]
        · rw [mem_append]
          refine or_iff_left fun hpm => ?_
          have hp := (perm_of_sortCandidates hsort').mem_iff.mp hp
          exact hapart p (hsub' hpm) p (mem_flatMap.mpr ⟨proc', hproc', hp⟩) rfl

theorem Given.getFco {fused : Bool} {fcoData : FcoRestrictMetadata} {cores : Cores}
    (hgiven : Given fused fcoData cores) : getFcoBasedOnCoreType fused fcoData.fcoValue
      = if fused then 2 * fcoData.fcoValue else fcoData.fcoValue := by
  have hsize := hgiven.fcoValue
  unfold getFcoBasedOnCoreType
  split
  · omega
  · rfl

/-- The whole function: the order of the processors, the ideal share, and what the loop over
the processors makes of them. -/
theorem applyFieldCoreOverrides_spec (fused : Bool) (fcoData : FcoRestrictMetadata)
    (cores : Cores) (hgiven : Given fused fcoData cores) (hfco : 1 ≤ fcoData.fcoValue) :
    ∃ sorted ideal extra procs marked, applyFieldCoreOverrides fused fcoData cores
        = some ({ fcoData with procFcoMetadataList := procs }, markAll cores marked) ∧
      (QSort.sort bootFirst sorted).Perm fcoData.procFcoMetadataList ∧
      Fair (if fused then 2 * fcoData.fcoValue else fcoData.fcoValue) ideal extra
        (QSort.sort bootFirst sorted) ∧
      List.Forall₂ SameProc (QSort.sort bootFirst sorted) procs ∧
      procs.map ProcFcoMetadata.availableCores
        = shares fused ideal (QSort.sort bootFirst sorted) extra 0 ∧
      (shares fused ideal (QSort.sort bootFirst sorted) extra 0).sum
        = min (total (QSort.sort bootFirst sorted))
            (if fused then 2 * fcoData.fcoValue else fcoData.fcoValue) ∧
      (∀ proc ∈ procs,
        proc.availableCores = unmarked (markAll cores marked) proc.coreCandidateList) ∧
      ∀ proc ∈ fcoData.procFcoMetadataList, Chosen fused cores marked proc := by
  have hsize := hgiven.fcoValue
  obtain ⟨hperm, hfair⟩ := calculateIdealRemainingUnitsPerProc_fair fused hgiven.nonempty
  rw [hgiven.getFco] at hfair
  unfold applyFieldCoreOverrides
  rw [hgiven.getFco, if_neg (by split <;> omega)]
  generalize calculateIdealRemainingUnitsPerProc fused fcoData = r at hperm hfair ⊢
  obtain ⟨sorted, ideal, extra⟩ := r
  dsimp only at hperm hfair ⊢
  refine ⟨sorted, ideal, extra, ?_⟩
  have horder : (QSort.sort bootFirst sorted).Perm fcoData.procFcoMetadataList :=
    (QSort.sort_perm bootFirst sorted).trans hperm
  generalize QSort.sort bootFirst sorted = order at horder ⊢
  have hready : ∀ proc ∈ order, Ready fused cores proc :=
    fun proc hmem => hgiven.ready proc (horder.mem_iff.mp hmem)
  have hfair' := hfair.perm horder.symm
  obtain ⟨hsum, hfits⟩ := @shares_total fused _ ideal extra order hfair' (by split <;> omega)
    fun hfused => ⟨by rw [if_pos hfused]; omega, fun proc hmem => (hready proc hmem).even hfused⟩
  obtain ⟨procs, marked, hloop, _, hsame, hshares, hleft, hchosen⟩ :=
    procLoop_spec hready ((horder.flatMap_right _).nodup_iff.mpr hgiven.once) hfits
  rw [hloop]
  exact ⟨procs, marked, rfl, horder, hfair', hsame, hshares, hsum, hleft,
    fun proc hmem => hchosen proc (horder.mem_iff.mpr hmem)⟩

/-- Over all processors, as many cores are left as the FCO value asks for, or
all of them where there are fewer.  Nothing but marks changes in the metadata
of the cores, and each processor knows how many of its candidates are left. -/
theorem applyFieldCoreOverrides_total (fused : Bool) (fcoData : FcoRestrictMetadata)
    (cores : Cores) (hgiven : Given fused fcoData cores) (hfco : 1 ≤ fcoData.fcoValue) :
    ∃ procs marked, applyFieldCoreOverrides fused fcoData cores
        = some ({ fcoData with procFcoMetadataList := procs }, markAll cores marked) ∧
      (∃ order, order.Perm fcoData.procFcoMetadataList ∧ List.Forall₂ SameProc order procs) ∧
      (procs.map fun proc => unmarked (markAll cores marked) proc.coreCandidateList).sum
        = min (total fcoData.procFcoMetadataList)
            (if fused then 2 * fcoData.fcoValue else fcoData.fcoValue) ∧
      ∀ proc ∈ procs,
        proc.availableCores = unmarked (markAll cores marked) proc.coreCandidateList := by
  obtain ⟨sorted, ideal, extra, procs, marked, happly, horder, -, hsame, hshares, hsum, hleft, -⟩ :=
    applyFieldCoreOverrides_spec fused fcoData cores hgiven hfco
  refine ⟨procs, marked, happly, ⟨_, horder, hsame⟩, ?_, hleft⟩
  rw [← total_perm horder, ← hsum, ← hshares]
  exact congrArg List.sum (map_congr_left fun proc hmem => (hleft proc hmem).symm)

/-- A boot processor with one fused core and a processor with two. -/
def twoProcs : FcoRestrictMetadata where
  fcoValue := 2
  procFcoMetadataList := [⟨0, 2, true, [0, 1]⟩, ⟨1, 4, false, [2, 3, 4, 5]⟩]

def twoProcsCores : Cores := fun p =>
  ⟨p, decide (p < 2), false, some (if p % 2 = 0 then p + 1 else p - 1)⟩

theorem twoProcs_given : Given true twoProcs twoProcsCores where
  nonempty := by decide
  boot := by decide
  ready := by
    have hready : ∀ proc, (proc.availableCores = proc.coreCandidateList.length ∧
        proc.coreCandidateList.Nodup ∧
        (proc.coreCandidateList.map fun p => (twoProcsCores p).chipUnit).Nodup ∧
        (∀ p ∈ proc.coreCandidateList, (twoProcsCores p).chipUnit < NUM_CORE_PER_CHIP) ∧
        (∀ p ∈ proc.coreCandidateList, (twoProcsCores p).markedForFcoDeconfig = false) ∧
        Siblings twoProcsCores proc.coreCandidateList) → Ready true twoProcsCores proc :=
      fun proc h => ⟨h.1, h.2.1, h.2.2.1, h.2.2.2.1, h.2.2.2.2.1, fun _ => h.2.2.2.2.2⟩
    intro proc hmem
    refine hready proc ?_
    revert proc hmem
    unfold Siblings
    decide
  once := by decide
  fcoValue := by decide

theorem applyFieldCoreOverrides_twoProcs :
    ∃ procs marked, applyFieldCoreOverrides true twoProcs twoProcsCores
        = some ({ twoProcs with procFcoMetadataList := procs }, markAll twoProcsCores marked) ∧
      (procs.map fun proc => unmarked (markAll twoProcsCores marked) proc.coreCandidateList).sum
        = 4 := by
  obtain ⟨procs, marked, happly, _, hsum, _⟩ :=
    applyFieldCoreOverrides_total true twoProcs twoProcsCores twoProcs_given (by decide)
  exact ⟨procs, marked, happly, hsum⟩

end Hostboot.Hwas.Fco
