import Hostboot.Hwas.GardInvariant

/-!
# When the GARD repository is full

`platCreateGardRecord` should report `RC_GARD_REPOSITORY_FULL` only when the
repository has no empty record (`Complete`).  It also reports it when the next
record id has reached the number of records, and clearing records does not give
their ids back.

`complete_iff` says for every sequence of calls and boots that the creations
in it are complete exactly when each comes with a next record id that is below
the number of records, or when the repository has no empty record or a
duplicate anyway (`HasId`).
-/

namespace Hostboot.Hwas.Gard

/-- The creation comes to the repository: the target is there and may have a
record, and no policy is against it. -/
def Applicable (cfg : Config) (target : Target) (errorType : GardErrorType) : Prop :=
  target.present = true ∧ target.deconfigGardable = true ∧ cfg.manufacturingDisabled = false ∧
    ¬(cfg.predictiveDisabled = true ∧ errorType = .GARD_Predictive)

instance (cfg : Config) (target : Target) (errorType : GardErrorType) :
    Decidable (Applicable cfg target errorType) := inferInstanceAs (Decidable (_ ∧ _))

/-- No record is empty. -/
def NoneEmpty (records : List GardRecord) : Prop := ∀ r ∈ records, r.Used

instance (records : List GardRecord) : Decidable (NoneEmpty records) :=
  inferInstanceAs (Decidable (∀ r ∈ records, r.iv_recordId ≠ EMPTY_GARD_RECORDID))

/-- A record that the new one would duplicate. -/
def HasDuplicate (cfg : Config) (records : List GardRecord) (target : Target)
    (errorType : GardErrorType) : Prop :=
  ∃ r ∈ records, r.Used ∧ r.iv_targetId = target.physPath ∧
    isDupGardRecord cfg r.iv_errorType errorType = true

/-- The creation reports a full repository only when no record is empty and there is no
duplicate of the new one. -/
def Complete (cfg : Config) (s : State) (target : Target) (errlEid : UInt32)
    (errorType : GardErrorType) : Prop :=
  ∀ err, (platCreateGardRecord cfg s target errlEid errorType).2 = some err →
    err.reasoncode = .RC_GARD_REPOSITORY_FULL →
    NoneEmpty (gardRecordIdSetup cfg s).1.memory.iv_gardRecords ∧
      ¬HasDuplicate cfg (gardRecordIdSetup cfg s).1.memory.iv_gardRecords target errorType

/-- Once the repository is set up, there is an id for one more record, unless none is needed
or there is no place for it. -/
def HasId (cfg : Config) (s : State) (target : Target) (errorType : GardErrorType) : Prop :=
  let s := (gardRecordIdSetup cfg s).1
  ∀ hb, s.iv_platDeconfigGard = some hb →
    hb.iv_nextGardRecordId.toNat < hb.iv_maxGardRecords ∨ NoneEmpty s.memory.iv_gardRecords ∨
      HasDuplicate cfg s.memory.iv_gardRecords target errorType

variable {cfg : Config}

/-! ## What the scan finds -/

theorem scan_none {targetId : EntityPath} {errorType : GardErrorType} {records : List GardRecord}
    {i : Nat} {p : Option Nat} {d : Bool}
    (h : scan cfg targetId errorType records i p = (none, d)) :
    p = none ∧ ∀ r ∈ records, r.Used ∧ (r.iv_targetId = targetId →
      isDupGardRecord cfg r.iv_errorType errorType = false) := by
  induction records generalizing i p with
  | nil =>
    cases h
    exact ⟨rfl, fun r hr => absurd hr List.not_mem_nil⟩
  | cons r records ih =>
    unfold scan at h
    split at h
    · -- the place of an empty record is not lost
      obtain ⟨hp, -⟩ := ih h
      cases p <;> cases hp
    · rename_i hused
      split at h
      · cases h
      · rename_i hdup
        obtain ⟨hp, hall⟩ := ih h
        refine ⟨hp, fun r' hr' => ?_⟩
        rcases List.mem_cons.mp hr' with rfl | hr'
        · exact ⟨hused, fun ht => Bool.eq_false_iff.mpr fun htrue => hdup ⟨ht, htrue⟩⟩
        · exact hall r' hr'

theorem HWAS_90_PERCENT_OF_le (num : Nat) : HWAS_90_PERCENT_OF num ≤ num := by
  unfold HWAS_90_PERCENT_OF
  have hmod : num * 9 % 2 ^ 32 ≤ num * 9 := Nat.mod_le _ _
  omega

/-! ## One creation -/

/-- The log about a full repository. -/
def repositoryFull (hb : HBDeconfigGard) (target : Target) (errlEid : UInt32) : Errl :=
  ⟨.RC_GARD_REPOSITORY_FULL, (target.huid, errlEid),
    (hb.iv_nextGardRecordId, hb.iv_maxGardRecords.toUInt32)⟩

theorem gardRecordIdSetup_cases (s : State) :
    (gardRecordIdSetup cfg s).2 = none ∨
      ∃ err, (gardRecordIdSetup cfg s).2 = some err ∧ cfg.sectionInfo = .error err ∧
        (gardRecordIdSetup cfg s).1.iv_platDeconfigGard = none := by
  obtain ⟨info, hinfo, herror⟩ := @getGardSectionInfo_cases cfg s
  unfold gardRecordIdSetup
  generalize getGardSectionInfo cfg s = answer at hinfo herror
  obtain ⟨s1, found⟩ := answer
  obtain rfl : s1 = _ := hinfo
  split
  · exact Or.inl rfl
  · rename_i hnone
    split
    · rename_i err heq
      cases heq
      exact Or.inr ⟨err, rfl, herror err rfl, Option.not_isSome_iff_eq_none.mp hnone⟩
    · exact Or.inl rfl
    · exact Or.inl rfl

section

variable {s : State} {target : Target} {errorType : GardErrorType}
  (happ : Applicable cfg target errorType)
include happ

theorem platCreateGardRecord_errl_of_none
    (h : (gardRecordIdSetup cfg s).1.iv_platDeconfigGard = none) (errlEid : UInt32) :
    (platCreateGardRecord cfg s target errlEid errorType).2 = (gardRecordIdSetup cfg s).2 := by
  obtain ⟨hpresent, hgardable, hmanufacturing, hpredictive⟩ := happ
  unfold platCreateGardRecord
  rw [hpresent, hgardable, hmanufacturing, if_neg (by decide), if_neg (by decide),
    if_neg (by decide), if_neg hpredictive]
  generalize gardRecordIdSetup cfg s = result at h ⊢
  obtain ⟨s1, _ | err⟩ := result
  · dsimp only at h ⊢
    rw [h]
  · rfl

theorem platCreateGardRecord_errl {hb : HBDeconfigGard}
    (hhb : (gardRecordIdSetup cfg s).1.iv_platDeconfigGard = some hb) (errlEid : UInt32) :
    (platCreateGardRecord cfg s target errlEid errorType).2
      = match scan cfg target.physPath errorType
            (gardRecordIdSetup cfg s).1.memory.iv_gardRecords 0 none with
        | (some _, true) => none
        | (none, _) => some (repositoryFull hb target errlEid)
        | (some _, false) =>
          if hb.iv_nextGardRecordId.toNat < hb.iv_maxGardRecords then none
          else some (repositoryFull hb target errlEid) := by
  have hok : (gardRecordIdSetup cfg s).2 = none := by
    rcases @gardRecordIdSetup_cases cfg s with hok | ⟨err, -, -, hnone⟩
    · exact hok
    · rw [hnone] at hhb
      cases hhb
  obtain ⟨hpresent, hgardable, hmanufacturing, hpredictive⟩ := happ
  unfold platCreateGardRecord
  rw [hpresent, hgardable, hmanufacturing, if_neg (by decide), if_neg (by decide),
    if_neg (by decide), if_neg hpredictive]
  generalize gardRecordIdSetup cfg s = result at hhb hok ⊢
  obtain ⟨s1, err⟩ := result
  dsimp only at hhb hok ⊢
  rw [hok]
  dsimp only
  rw [hhb]
  dsimp only
  rcases scan cfg target.physPath errorType s1.memory.iv_gardRecords 0 none with ⟨_ | i, d⟩
  · rfl
  · cases d with
    | true =>
      dsimp only
      split
      · rfl
      · split <;> rfl
    | false =>
      dsimp only
      by_cases hlt : hb.iv_nextGardRecordId.toNat < hb.iv_maxGardRecords
      · rw [if_neg (fun h => h.2 hlt), if_pos hlt]
        split <;> rfl
      · have hle := HWAS_90_PERCENT_OF_le hb.iv_maxGardRecords
        rw [if_pos ⟨by omega, hlt⟩, if_neg hlt]
        rfl

end

/-- The error of the section is not the one about a full repository. -/
def OtherErrors (cfg : Config) : Prop :=
  ∀ err, cfg.sectionInfo = .error err → err.reasoncode ≠ .RC_GARD_REPOSITORY_FULL

theorem complete_iff_hasId (hcfg : OtherErrors cfg) (s : State) {target : Target}
    {errorType : GardErrorType} (happ : Applicable cfg target errorType) (errlEid : UInt32) :
    Complete cfg s target errlEid errorType ↔ HasId cfg s target errorType := by
  unfold Complete HasId
  dsimp only
  cases hhb : (gardRecordIdSetup cfg s).1.iv_platDeconfigGard with
  | none =>
    rw [platCreateGardRecord_errl_of_none happ hhb]
    refine iff_of_true (fun err herr hfull => ?_) (fun hb h => by cases h)
    rcases @gardRecordIdSetup_cases cfg s with hok | ⟨err', herr', hsection, -⟩
    · rw [hok] at herr
      cases herr
    · rw [herr', Option.some.injEq] at herr
      exact absurd hfull (herr ▸ hcfg err' hsection)
  | some hb =>
    rw [platCreateGardRecord_errl happ hhb]
    have hall : ∀ {P : HBDeconfigGard → Prop}, (∀ hb', some hb = some hb' → P hb') ↔ P hb :=
      fun {P} => ⟨fun h => h hb rfl, fun h hb' heq => by cases heq; exact h⟩
    rw [hall]
    generalize (gardRecordIdSetup cfg s).1.memory.iv_gardRecords = records
    cases hscan : scan cfg target.physPath errorType records 0 none with
    | mk p d =>
      cases p with
      | none =>
        obtain ⟨-, hnone⟩ := scan_none hscan
        have hempty : NoneEmpty records := fun r hr => (hnone r hr).1
        refine iff_of_true (fun _ _ _ => ⟨hempty, ?_⟩) (Or.inr (Or.inl hempty))
        rintro ⟨r, hr, hused, htarget, hdup⟩
        rw [(hnone r hr).2 htarget] at hdup
        cases hdup
      | some i =>
        cases d with
        | true =>
          obtain ⟨-, r, hr, hdup⟩ := scan_duplicate hscan
          exact iff_of_true (fun _ h => by cases h)
            (Or.inr (Or.inr ⟨r, List.mem_of_getElem? hr, hdup⟩))
        | false =>
          obtain ⟨hnone, hplace⟩ := scan_free hscan
          obtain ⟨_, r, hr, hfree⟩ := hplace.resolve_left fun h => by cases h
          dsimp only
          by_cases hlt : hb.iv_nextGardRecordId.toNat < hb.iv_maxGardRecords
          · rw [if_pos hlt]
            exact iff_of_true (fun _ h => by cases h) (Or.inl hlt)
          · -- an empty record, no duplicate and no id
            rw [if_neg hlt]
            have hnot : ¬NoneEmpty records := fun h => hfree (h r (List.mem_of_getElem? hr))
            refine iff_of_false (fun h => hnot (h _ rfl rfl).1) ?_
            rintro (hlt' | hempty | ⟨r', hr', hused, htarget, hdup⟩)
            · exact hlt hlt'
            · exact hnot hempty
            · rw [hnone r' hr' hused htarget] at hdup
              cases hdup

/-! ## All creations -/

/-- In every sequence of calls and boots, the creations report a full repository only when
it is full exactly when there is an id for each of them. -/
theorem complete_iff (cfg : Config) (hcfg : OtherErrors cfg) (pnor : GardRecordsBinary)
    (calls : List Call) :
    (∀ pre target errlEid errorType, pre ++ [.create target errlEid errorType] <+: calls →
      Applicable cfg target errorType →
      Complete cfg (pre.foldl (step cfg) (.boot pnor)) target errlEid errorType) ↔
    ∀ pre target errlEid errorType, pre ++ [.create target errlEid errorType] <+: calls →
      Applicable cfg target errorType →
      HasId cfg (pre.foldl (step cfg) (.boot pnor)) target errorType := by
  constructor
  · intro h pre target errlEid errorType hpre happ
    exact (complete_iff_hasId hcfg _ happ errlEid).mp (h pre target errlEid errorType hpre happ)
  · intro h pre target errlEid errorType hpre happ
    exact (complete_iff_hasId hcfg _ happ errlEid).mpr (h pre target errlEid errorType hpre happ)

/-- An eBMC system with a guard partition. -/
def sampleConfig : Config := ⟨false, false, false, .ok true⟩

/-- A core that is guarded over and over. -/
def sampleCore : Target := ⟨9, ⟨2, [⟨2, 0⟩, ⟨7, 1⟩]⟩, true, true⟩

/-- The first record of an empty partition. -/
theorem complete_iff_first :
    Complete sampleConfig (.boot emptyPnor) sampleCore 1 .GARD_Fatal := by
  refine (complete_iff sampleConfig (fun err h => by cases h) emptyPnor
    [.create sampleCore 1 .GARD_Fatal]).mpr ?_ [] sampleCore 1 .GARD_Fatal (List.prefix_refl _)
    (by decide)
  intro pre target errlEid errorType hpre _
  have hnil : pre = [] := by
    have hle := hpre.length_le
    rw [List.length_append, List.length_singleton, List.length_singleton] at hle
    exact List.length_eq_zero_iff.mp (by omega)
  subst hnil
  intro hb hhb
  have hfirst : (gardRecordIdSetup sampleConfig (.boot emptyPnor)).1.iv_platDeconfigGard
      = some ⟨1, 4, CURRENT_GARD_VERSION_LAYOUT⟩ := by decide
  obtain rfl : _ = hb := Option.some.inj (hfirst.symm.trans hhb)
  exact Or.inl (by decide)

/-- A record of the core is created and cleared three times. -/
def threeCycles : List Call :=
  [.create sampleCore 1 .GARD_Fatal, .clear (some sampleCore) false,
    .create sampleCore 1 .GARD_Fatal, .clear (some sampleCore) false,
    .create sampleCore 1 .GARD_Fatal, .clear (some sampleCore) false]

/-- Then the partition, in which all four records are empty, is full. -/
theorem full_of_empty_records : ¬∀ (cfg : Config) (_ : OtherErrors cfg) (pnor : GardRecordsBinary)
    (calls pre : List Call) (target : Target) (errlEid : UInt32) (errorType : GardErrorType),
    pre ++ [.create target errlEid errorType] <+: calls → Applicable cfg target errorType →
    Complete cfg (pre.foldl (step cfg) (.boot pnor)) target errlEid errorType := by
  intro h
  have hcomplete := h sampleConfig (fun err h => by cases h) emptyPnor _ threeCycles sampleCore 1
    .GARD_Fatal (List.prefix_refl _) (by decide)
  have hfull : (platCreateGardRecord sampleConfig
      (threeCycles.foldl (step sampleConfig) (.boot emptyPnor)) sampleCore 1 .GARD_Fatal).2
      = some (repositoryFull ⟨4, 4, CURRENT_GARD_VERSION_LAYOUT⟩ sampleCore 1) := by decide
  exact absurd (hcomplete _ hfull rfl).1 (by decide)

end Hostboot.Hwas.Gard
