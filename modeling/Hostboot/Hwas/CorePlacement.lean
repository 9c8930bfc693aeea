import Hostboot.Hwas.FieldCoreOverride
import Mathlib.Data.List.Nodup
import Mathlib.Order.Lattice

/-!
# Where the cores are taken

The published rules of the field core override say more than how many cores
are left: the boot core stays (2a), the cores of a processor go in the order
of their priorities (2d), no fused core is broken (3), and the cores are
spread evenly (2).

The boot core stays for two reasons that meet here.  Its processor comes first,
where the share is not zero, and the core itself comes last in the order of
the priorities.  Evenness is a fact about the shares alone.
-/

namespace Hostboot.Hwas.Fco

open Util List

/-! ## Even shares -/

/-- The most that a processor above the ideal share may keep. -/
def topShare (fused : Bool) (ideal : Nat) : Nat :=
  if fused ∧ ideal % 2 = 0 then ideal + 2 else ideal + 1

/-- By how much the processors may differ. -/
def shareStep (fused : Bool) : Nat := if fused then 2 else 1

/-- A share is never above the top, and a processor that loses a core is near the top. -/
def NearTop (fused : Bool) (ideal share : Nat) (proc : ProcFcoMetadata) : Prop :=
  share ≤ topShare fused ideal ∧
    (share < proc.availableCores → topShare fused ideal ≤ share + shareStep fused)

theorem maxUnits_nearTop {fused last : Bool} {ideal extra debt : Nat} {proc : ProcFcoMetadata}
    (hsize : proc.availableCores < 2 ^ 64)
    (hdebt : debt ≠ 0 → fused = true ∧ ideal % 2 = 1) :
    NearTop fused ideal
        (calculateMaxUnitsForProc fused ideal proc.availableCores last extra debt).1 proc ∧
      ((calculateMaxUnitsForProc fused ideal proc.availableCores last extra debt).2.2 ≠ 0 →
        fused = true ∧ ideal % 2 = 1) := by
  unfold NearTop topShare shareStep calculateMaxUnitsForProc
  rcases Nat.lt_or_ge ideal proc.availableCores with hlt | hle
  · have hsub : ideal % 2 = 1 → subSize ideal 1 = ideal - 1 := fun hodd =>
      subSize_of_le (by omega) (by omega)
    grind
  · rw [if_pos hle]
    refine ⟨⟨?_, fun h => absurd h (Nat.lt_irrefl _)⟩, hdebt⟩
    dsimp only
    split <;> omega

theorem shares_nearTop {fused : Bool} {ideal extra debt : Nat} {procs : List ProcFcoMetadata}
    (hsize : ∀ proc ∈ procs, proc.availableCores < 2 ^ 64)
    (hdebt : debt ≠ 0 → fused = true ∧ ideal % 2 = 1) :
    List.Forall₂ (NearTop fused ideal) (shares fused ideal procs extra debt) procs := by
  induction procs generalizing extra debt with
  | nil => exact .nil
  | cons proc procs ih =>
    obtain ⟨hnear, hdebt'⟩ := @maxUnits_nearTop fused procs.isEmpty ideal extra debt proc
      (hsize proc mem_cons_self) hdebt
    exact .cons hnear (ih (fun p hp => hsize p (mem_cons_of_mem _ hp)) hdebt')

theorem kept_zero (procs : List ProcFcoMetadata) : kept 0 procs = 0 := by
  induction procs with
  | nil => rfl
  | cons proc procs ih =>
    rcases Nat.lt_or_ge 0 proc.availableCores with hlt | hle
    · rw [kept_cons_of_lt hlt, ih]
    · rw [kept_cons_of_le hle, ih, Nat.le_zero.mp hle]

theorem first_share_pos {fused last : Bool} {fco ideal extra : Nat} {proc : ProcFcoMetadata}
    {procs : List ProcFcoMetadata} (hfair : Fair fco ideal extra (proc :: procs)) (hfco : 1 ≤ fco)
    (havail : 1 ≤ proc.availableCores) :
    1 ≤ (calculateMaxUnitsForProc fused ideal proc.availableCores last extra 0).1 := by
  unfold calculateMaxUnitsForProc
  split
  · exact havail
  · rename_i hlt
    split
    · split <;> exact Nat.le_add_left 1 _
    · -- without extra units the ideal share is not zero
      rename_i hextra
      obtain rfl : extra = 0 := by omega
      have hideal : 1 ≤ ideal := by
        rcases hfair with ⟨hnone, -⟩ | ⟨hsum, -⟩
        · rw [above_cons_of_lt (Nat.not_le.mp hlt)] at hnone
          cases hnone
        · refine Nat.pos_of_ne_zero fun hzero => ?_
          subst hzero
          rw [kept_zero] at hsum
          omega
      rw [if_neg (by simp)]
      split
      · exact Nat.le_add_left 1 _
      · exact hideal

theorem share_of_mem {cores : Cores} {R : Nat → ProcFcoMetadata → Prop}
    {order procs : List ProcFcoMetadata} (hsame : List.Forall₂ SameProc order procs)
    (hshares : List.Forall₂ R (procs.map ProcFcoMetadata.availableCores) order)
    (hleft : ∀ proc ∈ procs, proc.availableCores = unmarked cores proc.coreCandidateList) :
    ∀ proc ∈ order, R (unmarked cores proc.coreCandidateList) proc := by
  induction hsame with
  | nil => exact fun _ h => absurd h not_mem_nil
  | @cons proc proc' order procs hproc _ ih =>
    obtain ⟨hshare, hshares⟩ := forall₂_cons.mp hshares
    refine forall_mem_cons.mpr ⟨?_, ih hshares fun p hp =>
      hleft p (mem_cons_of_mem _ hp)⟩
    rw [← unmarked_perm hproc.2.2, ← hleft proc' mem_cons_self]
    exact hshare

/-! ## The boot processor is first -/

/-- `bootFirst` without the answer for the boot processor and itself. -/
def bootFirst' (thisProc thatProc : ProcFcoMetadata) : Bool :=
  bootFirst thisProc thatProc && !(thisProc.isBootProc && thatProc.isBootProc)

theorem bootFirst'_asymm (a b : ProcFcoMetadata) (h : bootFirst' a b = true) :
    bootFirst' b a = false := by
  unfold bootFirst' bootFirst at h ⊢
  cases ha : a.isBootProc <;> cases hb : b.isBootProc <;> simp [ha, hb] at h ⊢
  omega

theorem bootFirst'_trans (a b c : ProcFcoMetadata) (hab : bootFirst' b a = false)
    (hbc : bootFirst' c b = false) : bootFirst' c a = false := by
  unfold bootFirst' bootFirst at hab hbc ⊢
  cases ha : a.isBootProc <;> cases hb : b.isBootProc <;> cases hc : c.isBootProc <;>
    simp [ha, hb, hc] at hab hbc ⊢
  omega

theorem exists_boot_cons {procs : List ProcFcoMetadata}
    (hboot : procs.countP ProcFcoMetadata.isBootProc = 1) :
    ∃ proc rest, QSort.sort bootFirst procs = proc :: rest ∧ proc.isBootProc = true ∧
      ∀ p ∈ rest, p.isBootProc = false := by
  have hfilter : (procs.filter ProcFcoMetadata.isBootProc).Pairwise fun _ _ => False := by
    rw [countP_eq_length_filter] at hboot
    obtain ⟨p, hp⟩ := length_eq_one_iff.mp hboot
    rw [hp]
    exact pairwise_singleton _ _
  have hapart := pairwise_filter.mp hfilter
  have hcongr : QSort.sort bootFirst procs = QSort.sort bootFirst' procs := by
    refine QSort.sort_congr (hapart.imp fun {a b} hab => ?_)
    unfold bootFirst'
    cases ha : a.isBootProc <;> cases hb : b.isBootProc <;> simp [ha, hb] at hab ⊢
  have hsorted := QSort.sort_pairwise bootFirst' procs bootFirst'_asymm bootFirst'_trans
  have hcount := (QSort.sort_perm bootFirst' procs).countP_eq ProcFcoMetadata.isBootProc
  rw [hcongr]
  rw [hboot] at hcount
  cases hsort : QSort.sort bootFirst' procs with
  | nil =>
    rw [hsort] at hcount
    cases hcount
  | cons proc rest =>
    rw [hsort] at hcount hsorted
    cases hproc : proc.isBootProc with
    | true =>
      rw [countP_cons_of_pos hproc] at hcount
      refine ⟨proc, rest, rfl, hproc, fun p hp => ?_⟩
      exact Bool.eq_false_iff.mpr (countP_eq_zero.mp (by omega) p hp)
    | false =>
      -- the boot processor would be behind it
      rw [countP_cons_of_neg (by simp [hproc])] at hcount
      have hpos : 0 < rest.countP ProcFcoMetadata.isBootProc := by omega
      obtain ⟨p, hp, hpboot⟩ := countP_pos_iff.mp hpos
      have hbefore := (pairwise_cons.mp hsorted).1 p hp
      simp [bootFirst', bootFirst, hproc, hpboot] at hbefore

/-! ## The order of the cores -/

/-- The priority value by which a core is sorted. -/
def priority (cores : Cores) (p : CorePtr) : Nat := (getCoreFcoPriority (cores p)).getD 0

/-- The priority value of what goes together: a core, or the smallest one of its pair. -/
def unitPriority (fused : Bool) (cores : Cores) (p : CorePtr) : Nat :=
  match fused, (cores p).fcSiblingCore with
  | true, some q => min (priority cores p) (priority cores q)
  | _, _ => priority cores p

section
variable {fused : Bool} {cores : Cores} {proc : ProcFcoMetadata} {p q : CorePtr}

theorem priority_of_boot (h : (cores p).isBootCore = true) :
    priority cores p = BOOT_CORE_PRIORITY := by
  unfold priority getCoreFcoPriority
  rw [if_pos h]
  rfl

theorem priority_of_not_boot (h : (cores p).isBootCore = false)
    (hlt : (cores p).chipUnit < NUM_CORE_PER_CHIP) :
    priority cores p = CORE_FCO_PRIORITY_DECONFIG_LIST.get ⟨(cores p).chipUnit, hlt⟩ := by
  unfold priority getCoreFcoPriority
  rw [if_neg (by simp [h]), if_pos hlt, getElem?_eq_getElem hlt]
  rfl

theorem priority_lt_boot (h : (cores p).isBootCore = false)
    (hlt : (cores p).chipUnit < NUM_CORE_PER_CHIP) : priority cores p < BOOT_CORE_PRIORITY := by
  have hall : ∀ n ∈ CORE_FCO_PRIORITY_DECONFIG_LIST, n < BOOT_CORE_PRIORITY := by decide
  rw [priority_of_not_boot h hlt]
  exact hall _ (get_mem _ _)

/-- Two candidates of one processor never have the same priority, the boot cores apart. -/
theorem Ready.priority_ne (h : Ready fused cores proc) (hp : p ∈ proc.coreCandidateList)
    (hq : q ∈ proc.coreCandidateList) (hne : p ≠ q) (hboot : (cores q).isBootCore = false) :
    priority cores p ≠ priority cores q := by
  have hlt := h.below p hp
  cases hpboot : (cores p).isBootCore with
  | true =>
    rw [priority_of_boot hpboot]
    exact Nat.ne_of_gt (priority_lt_boot hboot (h.below q hq))
  | false =>
    have hnodup : CORE_FCO_PRIORITY_DECONFIG_LIST.Nodup := by decide
    rw [priority_of_not_boot hpboot hlt, priority_of_not_boot hboot (h.below q hq)]
    intro heq
    have hunit := Fin.mk.inj_iff.mp (nodup_iff_injective_get.mp hnodup heq)
    exact hne (inj_on_of_nodup_map h.units hp hq hunit)

theorem pairwise_sortCandidates {candidates candidates' : List CorePtr}
    (h : sortCandidates cores candidates = some candidates') :
    candidates'.Pairwise fun p q => priority cores p ≤ priority cores q := by
  unfold sortCandidates at h
  split at h
  · rw [← Option.some.inj h]
    refine (QSort.sort_pairwise _ _ ?_ ?_).imp ?_
    · simp only [decide_eq_true_eq, decide_eq_false_iff_not]
      omega
    · simp only [decide_eq_false_iff_not]
      omega
    · intro p q hpq
      exact Nat.not_lt.mp (of_decide_eq_false hpq)
  · cases h

end

/-- What the caller guarantees of the boot core: it is one of the boot processor, and it is
flagged, in fused mode with its sibling, and nothing else is. -/
structure BootCore (fused : Bool) (fcoData : FcoRestrictMetadata) (cores : Cores)
    (boot : CorePtr) : Prop where
  owner : ∃ proc ∈ fcoData.procFcoMetadataList,
    proc.isBootProc = true ∧ boot ∈ proc.coreCandidateList
  flagged : ∀ proc ∈ fcoData.procFcoMetadataList, ∀ p ∈ proc.coreCandidateList,
    (cores p).isBootCore = true
      ↔ p = boot ∨ fused = true ∧ (cores boot).fcSiblingCore = some p

/-- The rules 2, 2a, 2d and 3 of the field core override, from the cores before to the cores
behind it. -/
structure Placed (fused : Bool) (fcoData : FcoRestrictMetadata) (cores cores' : Cores) : Prop where
  boot : ∀ proc ∈ fcoData.procFcoMetadataList, ∀ p ∈ proc.coreCandidateList,
    (cores p).isBootCore = true → (cores' p).markedForFcoDeconfig = false
  whole : fused = true → ∀ proc ∈ fcoData.procFcoMetadataList, ∀ p ∈ proc.coreCandidateList,
    ∀ q, (cores p).fcSiblingCore = some q →
      (cores' p).markedForFcoDeconfig = (cores' q).markedForFcoDeconfig
  order : ∀ proc ∈ fcoData.procFcoMetadataList,
    ∀ p ∈ proc.coreCandidateList, ∀ q ∈ proc.coreCandidateList,
      (cores' p).markedForFcoDeconfig = true → (cores' q).markedForFcoDeconfig = false →
        (cores q).isBootCore = false → unitPriority fused cores p < unitPriority fused cores q
  even : ∀ proc ∈ fcoData.procFcoMetadataList, ∀ proc' ∈ fcoData.procFcoMetadataList,
    (∃ p ∈ proc.coreCandidateList, (cores' p).markedForFcoDeconfig = true) →
      unmarked cores' proc'.coreCandidateList
        ≤ unmarked cores' proc.coreCandidateList + shareStep fused

section
variable {fused : Bool} {cores : Cores} {proc : ProcFcoMetadata} {marked : List CorePtr}
  {p q : CorePtr}

theorem Ready.sibling (h : Ready fused cores proc) (hfused : fused = true)
    (hp : p ∈ proc.coreCandidateList) (hpq : (cores p).fcSiblingCore = some q) :
    q ∈ proc.coreCandidateList ∧ (cores q).fcSiblingCore = some p := by
  obtain ⟨r, hr, -, hpr, hrp⟩ := h.siblings hfused p hp
  obtain rfl : r = q := Option.some.inj (hpr.symm.trans hpq)
  exact ⟨hr, hrp⟩

theorem Chosen.whole (hchosen : Chosen fused cores marked proc) (hready : Ready fused cores proc)
    (hfused : fused = true) (hp : p ∈ proc.coreCandidateList)
    (hpq : (cores p).fcSiblingCore = some q) (hmem : p ∈ marked) : q ∈ marked := by
  obtain ⟨candidates, hsort, done, todo, hsplit, hmarked⟩ := hchosen
  have hperm := perm_of_sortCandidates hsort
  obtain ⟨hq, hqp⟩ := hready.sibling hfused hp hpq
  rw [hmarked q (hperm.mem_iff.mpr hq)]
  rcases (hmarked p (hperm.mem_iff.mpr hp)).mp hmem with hdone | ⟨-, r, hr, hrp⟩
  · exact Or.inr ⟨hfused, p, hdone, hpq⟩
  · have hr' : r ∈ candidates := hsplit ▸ mem_append_left _ hr
    have hpr := (hready.sibling hfused (hperm.mem_iff.mp hr') hrp).2
    obtain rfl : r = q := Option.some.inj (hpr.symm.trans hpq)
    exact Or.inl hr

/-- A marked core and one that is left: there is a core of the unit of the first one that is
sorted in front of the second one. -/
theorem Chosen.exists_before (hchosen : Chosen fused cores marked proc)
    (hp : p ∈ proc.coreCandidateList) (hq : q ∈ proc.coreCandidateList) (hpm : p ∈ marked)
    (hqm : q ∉ marked) :
    ∃ d ∈ proc.coreCandidateList, d ≠ q ∧ priority cores d ≤ priority cores q ∧
      (d = p ∨ fused = true ∧ (cores d).fcSiblingCore = some p) := by
  obtain ⟨candidates, hsort, done, todo, hsplit, hmarked⟩ := hchosen
  have hperm := perm_of_sortCandidates hsort
  have hsorted := pairwise_sortCandidates hsort
  rw [hsplit] at hsorted
  have hnotdone : q ∉ done := fun h => hqm ((hmarked q (hperm.mem_iff.mpr hq)).mpr (Or.inl h))
  have htodo : q ∈ todo := by
    have hq' := hperm.mem_iff.mpr hq
    rw [hsplit] at hq'
    exact (mem_append.mp hq').resolve_left hnotdone
  obtain ⟨d, hd, hunit⟩ : ∃ d ∈ done, d = p ∨ fused = true ∧ (cores d).fcSiblingCore = some p := by
    rcases (hmarked p (hperm.mem_iff.mpr hp)).mp hpm with hdone | ⟨hfused, d, hd, hdp⟩
    · exact ⟨p, hdone, Or.inl rfl⟩
    · exact ⟨d, hd, Or.inr ⟨hfused, hdp⟩⟩
  have hd' : d ∈ candidates := hsplit ▸ mem_append_left _ hd
  refine ⟨d, hperm.mem_iff.mp hd', ?_, (pairwise_append.mp hsorted).2.2 d hd q htodo, hunit⟩
  rintro rfl
  exact hnotdone hd

theorem unitPriority_le {d : CorePtr} (hready : Ready fused cores proc)
    (hd : d ∈ proc.coreCandidateList)
    (hunit : d = p ∨ fused = true ∧ (cores d).fcSiblingCore = some p) :
    unitPriority fused cores p ≤ priority cores d := by
  unfold unitPriority
  rcases hunit with rfl | ⟨rfl, hdp⟩
  · split
    · exact Nat.min_le_left _ _
    · exact Nat.le_refl _
  · rw [(hready.sibling rfl hd hdp).2]
    exact Nat.min_le_right _ _

/-- A marked unit comes before a core that is left, unless that is the boot core. -/
theorem Chosen.unitPriority_lt (hchosen : Chosen fused cores marked proc)
    (hready : Ready fused cores proc) (hp : p ∈ proc.coreCandidateList)
    (hq : q ∈ proc.coreCandidateList) (hpm : p ∈ marked) (hqm : q ∉ marked)
    (hboot : (cores q).isBootCore = false) :
    unitPriority fused cores p < priority cores q := by
  obtain ⟨d, hd, hne, hle, hunit⟩ := hchosen.exists_before hp hq hpm hqm
  have hlt := Nat.lt_of_le_of_ne hle (hready.priority_ne hd hq hne hboot)
  exact Nat.lt_of_le_of_lt (unitPriority_le hready hd hunit) hlt

end

section
variable {fused : Bool} {fcoData : FcoRestrictMetadata} {cores : Cores} {boot p q : CorePtr}
  {proc proc' : ProcFcoMetadata}

theorem BootCore.sibling (h : BootCore fused fcoData cores boot) (hgiven : Given fused fcoData cores)
    (hfused : fused = true) (hproc : proc ∈ fcoData.procFcoMetadataList)
    (hp : p ∈ proc.coreCandidateList) (hpq : (cores p).fcSiblingCore = some q)
    (hboot : (cores p).isBootCore = true) : (cores q).isBootCore = true := by
  obtain ⟨owner, howner, -, hown⟩ := h.owner
  have hq := ((hgiven.ready proc hproc).sibling hfused hp hpq).1
  rw [h.flagged proc hproc q hq]
  rcases (h.flagged proc hproc p hp).mp hboot with rfl | ⟨-, hsibling⟩
  · exact Or.inr ⟨hfused, hpq⟩
  · have hback := ((hgiven.ready owner howner).sibling hfused hown hsibling).2
    exact Or.inl (Option.some.inj (hpq.symm.trans hback))

theorem BootCore.pair (h : BootCore fused fcoData cores boot) (hgiven : Given fused fcoData cores)
    (hproc : proc ∈ fcoData.procFcoMetadataList) (hproc' : proc' ∈ fcoData.procFcoMetadataList)
    (hp : p ∈ proc.coreCandidateList) (hq : q ∈ proc'.coreCandidateList)
    (hpboot : (cores p).isBootCore = true) (hqboot : (cores q).isBootCore = true) :
    q = p ∨ fused = true ∧ (cores p).fcSiblingCore = some q := by
  obtain ⟨owner, howner, -, hown⟩ := h.owner
  rcases (h.flagged proc hproc p hp).mp hpboot with rfl | ⟨hfused, hsibling⟩
  · exact (h.flagged proc' hproc' q hq).mp hqboot
  · have hback := ((hgiven.ready owner howner).sibling hfused hown hsibling).2
    rcases (h.flagged proc' hproc' q hq).mp hqboot with rfl | ⟨-, hsibling'⟩
    · exact Or.inr ⟨hfused, hback⟩
    · exact Or.inl (Option.some.inj (hsibling'.symm.trans hsibling))

theorem BootCore.mem (h : BootCore fused fcoData cores boot) (hgiven : Given fused fcoData cores)
    (hproc : proc ∈ fcoData.procFcoMetadataList) (hp : p ∈ proc.coreCandidateList)
    (hpboot : (cores p).isBootCore = true) (hproc' : proc' ∈ fcoData.procFcoMetadataList)
    (hboot : boot ∈ proc'.coreCandidateList) : p ∈ proc'.coreCandidateList := by
  rcases (h.flagged proc hproc p hp).mp hpboot with rfl | ⟨hfused, hsibling⟩
  · exact hboot
  · exact ((hgiven.ready proc' hproc').sibling hfused hboot hsibling).1

/-- A processor that has the boot cores and keeps something keeps them. -/
theorem BootCore.kept {marked : List CorePtr} (h : BootCore fused fcoData cores boot)
    (hgiven : Given fused fcoData cores) (hproc : proc ∈ fcoData.procFcoMetadataList)
    (hchosen : Chosen fused cores marked proc) (hp : p ∈ proc.coreCandidateList)
    (hpboot : (cores p).isBootCore = true) (hq : q ∈ proc.coreCandidateList) (hqm : q ∉ marked) :
    p ∉ marked := by
  intro hpm
  have hready := hgiven.ready proc hproc
  obtain ⟨d, hd, -, hle, hunit⟩ := hchosen.exists_before hp hq hpm hqm
  have hdboot : (cores d).isBootCore = true := by
    rcases hunit with rfl | ⟨hfused, hdp⟩
    · exact hpboot
    · exact h.sibling hgiven hfused hproc hp (hready.sibling hfused hd hdp).2 hpboot
  -- so the other one is as far behind, and it is a boot core too
  rw [priority_of_boot hdboot] at hle
  have hqboot : (cores q).isBootCore = true := by
    cases hqboot : (cores q).isBootCore with
    | true => rfl
    | false => exact absurd (priority_lt_boot hqboot (hready.below q hq)) (Nat.not_lt.mpr hle)
  rcases h.pair hgiven hproc hproc hp hq hpboot hqboot with rfl | ⟨hfused, hpq⟩
  · exact hqm hpm
  · exact hqm (hchosen.whole hready hfused hp hpq hpm)

end

/-! ## All processors -/

theorem first_unmarked_pos {fused : Bool} {ideal extra : Nat} {cores : Cores}
    {proc : ProcFcoMetadata} {rest procs : List ProcFcoMetadata}
    (hsame : List.Forall₂ SameProc (proc :: rest) procs)
    (hshares : procs.map ProcFcoMetadata.availableCores
      = shares fused ideal (proc :: rest) extra 0)
    (hleft : ∀ proc ∈ procs, proc.availableCores = unmarked cores proc.coreCandidateList)
    (hpos : ∀ last,
      1 ≤ (calculateMaxUnitsForProc fused ideal proc.availableCores last extra 0).1) :
    1 ≤ unmarked cores proc.coreCandidateList := by
  cases hsame with
  | @cons _ proc' _ procs hproc _ =>
    rw [shares, map_cons, List.cons.injEq] at hshares
    rw [← unmarked_perm hproc.2.2, ← hleft proc' mem_cons_self, hshares.1]
    exact hpos rest.isEmpty

/-- The cores are taken where the rules say: none of the boot cores, fused cores as a whole,
in the order of the priorities, and evenly over the processors. -/
theorem applyFieldCoreOverrides_placed (fused : Bool) (fcoData : FcoRestrictMetadata)
    (cores : Cores) (boot : CorePtr) (hgiven : Given fused fcoData cores)
    (hboot : BootCore fused fcoData cores boot) (hfco : 1 ≤ fcoData.fcoValue) :
    ∃ procs marked, applyFieldCoreOverrides fused fcoData cores
        = some ({ fcoData with procFcoMetadataList := procs }, markAll cores marked) ∧
      Placed fused fcoData cores (markAll cores marked) := by
  obtain ⟨sorted, ideal, extra, procs, marked, happly, horder, hfair, hsame, hshares, -, hleft,
    hchosen⟩ := applyFieldCoreOverrides_spec fused fcoData cores hgiven hfco
  refine ⟨procs, marked, happly, ?_⟩
  have hmarked : ∀ proc ∈ fcoData.procFcoMetadataList, ∀ p ∈ proc.coreCandidateList,
      (markAll cores marked p).markedForFcoDeconfig = true ↔ p ∈ marked := by
    intro proc hproc p hp
    rw [markAll_marked, (hgiven.ready proc hproc).fresh p hp]
    simp
  have hleft' : ∀ proc ∈ fcoData.procFcoMetadataList, ∀ p ∈ proc.coreCandidateList,
      (markAll cores marked p).markedForFcoDeconfig = false ↔ p ∉ marked := by
    intro proc hproc p hp
    rw [← hmarked proc hproc p hp, Bool.not_eq_true]
  constructor
  case boot =>
    intro proc hproc p hp hpboot
    obtain ⟨owner, howner, hisBoot, hown⟩ := hboot.owner
    have hp' := hboot.mem hgiven hproc hp hpboot howner hown
    -- the processor of the boot core is the first one
    obtain ⟨first, rest, horder', hfirst, hrest⟩ := @exists_boot_cons sorted (by
      rw [← (QSort.sort_perm bootFirst sorted).countP_eq, horder.countP_eq]
      exact hgiven.boot)
    have howner' := horder.mem_iff.mpr howner
    rw [horder'] at howner' hfair hsame hshares
    obtain rfl : owner = first := by
      refine (mem_cons.mp howner').resolve_right fun h => ?_
      rw [hrest owner h] at hisBoot
      cases hisBoot
    have havail : 1 ≤ owner.availableCores := by
      rw [(hgiven.ready owner howner).available]
      exact length_pos_of_mem hown
    have hpos := first_unmarked_pos hsame hshares hleft fun last =>
      @first_share_pos fused last _ ideal extra owner rest hfair (by split <;> omega) havail
    obtain ⟨q, hq, hqleft⟩ := countP_pos_iff.mp hpos
    have hqm : q ∉ marked := (hleft' owner howner q hq).mp (by simpa using hqleft)
    exact (hleft' owner howner p hp').mpr
      (hboot.kept hgiven howner (hchosen owner howner) hp' hpboot hq hqm)
  case whole =>
    intro hfused proc hproc p hp q hpq
    have hready := hgiven.ready proc hproc
    obtain ⟨hq, hqp⟩ := hready.sibling hfused hp hpq
    rw [Bool.eq_iff_iff, hmarked proc hproc p hp, hmarked proc hproc q hq]
    exact ⟨(hchosen proc hproc).whole hready hfused hp hpq,
      (hchosen proc hproc).whole hready hfused hq hqp⟩
  case order =>
    intro proc hproc p hp q hq hpm hqm hqboot
    rw [hmarked proc hproc p hp] at hpm
    rw [hleft' proc hproc q hq] at hqm
    have hready := hgiven.ready proc hproc
    have hlt := (hchosen proc hproc).unitPriority_lt hready hp hq hpm hqm hqboot
    conv_rhs => unfold unitPriority
    split
    · rename_i q' hqq'
      obtain ⟨hq', hq'q⟩ := hready.sibling rfl hq hqq'
      have hqm' : q' ∉ marked := fun h => hqm ((hchosen proc hproc).whole hready rfl hq' hq'q h)
      have hqboot' : (cores q').isBootCore = false := by
        rw [← Bool.not_eq_true] at hqboot ⊢
        exact fun h => hqboot (hboot.sibling hgiven rfl hproc hq' hq'q h)
      have hlt' := (hchosen proc hproc).unitPriority_lt hready hp hq' hpm hqm' hqboot'
      exact Nat.lt_min.mpr ⟨hlt, hlt'⟩
    · exact hlt
  case even =>
    intro proc hproc proc' hproc' hlost
    have hnear := @shares_nearTop fused ideal extra 0 (QSort.sort bootFirst sorted)
      (fun p hp => by
        have hready := hgiven.ready p (horder.mem_iff.mp hp)
        have hcount := hready.length_le
        rw [hready.available]
        unfold NUM_CORE_PER_CHIP at hcount
        omega)
      (fun h => absurd rfl h)
    rw [← hshares] at hnear
    have hshare := share_of_mem hsame hnear hleft
    have htop := (hshare proc' (horder.mem_iff.mpr hproc')).1
    refine Nat.le_trans htop ((hshare proc (horder.mem_iff.mpr hproc)).2 ?_)
    obtain ⟨p, hp, hpm⟩ := hlost
    rw [(hgiven.ready proc hproc).available]
    refine Nat.lt_of_le_of_ne countP_le_length fun hall => ?_
    have hleft := countP_eq_length.mp hall p hp
    rw [hpm] at hleft
    cases hleft

theorem twoProcs_boot : BootCore true twoProcs twoProcsCores 0 where
  owner := ⟨_, mem_cons_self, rfl, mem_cons_self⟩
  flagged := by decide

theorem applyFieldCoreOverrides_placed_twoProcs :
    ∃ procs marked, applyFieldCoreOverrides true twoProcs twoProcsCores
        = some ({ twoProcs with procFcoMetadataList := procs }, markAll twoProcsCores marked) ∧
      Placed true twoProcs twoProcsCores (markAll twoProcsCores marked) :=
  applyFieldCoreOverrides_placed true twoProcs twoProcsCores 0 twoProcs_given twoProcs_boot
    (by decide)

end Hostboot.Hwas.Fco
