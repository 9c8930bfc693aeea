import Hostboot.Hwas.GardRecords

/-!
# The invariant of the GARD repository

`Ok` is what every call keeps: the PNOR holds what the memory holds, any two
records that are not empty get along with each other, and once the repository
has been set up every id in use is below the next one.
-/

namespace Hostboot.Hwas.Gard

open List

variable {cfg : Config}

/-! ## The next record id -/

/-- The loop of the set up finds the highest id in use, which is not the id of
an empty record. -/
theorem foldl_recordId {records : List GardRecord} {next : UInt32}
    (hnext : next ≠ EMPTY_GARD_RECORDID) :
    let last := records.foldl (fun next r =>
      if r.iv_recordId ≠ EMPTY_GARD_RECORDID ∧ r.iv_recordId > next then r.iv_recordId else next)
      next
    last ≠ EMPTY_GARD_RECORDID ∧ next ≤ last ∧ ∀ r ∈ records, r.Used → r.iv_recordId ≤ last := by
  induction records generalizing next with
  | nil => exact ⟨hnext, UInt32.le_refl _, fun r hr => absurd hr not_mem_nil⟩
  | cons r records ih =>
    dsimp only
    rw [foldl_cons]
    split
    · rename_i hgreater
      obtain ⟨hne, hle, hall⟩ := ih hgreater.1
      refine ⟨hne, UInt32.le_trans (UInt32.le_of_lt hgreater.2) hle, fun r' hr' hused => ?_⟩
      rcases mem_cons.mp hr' with rfl | hr'
      · exact hle
      · exact hall r' hr' hused
    · rename_i hgreater
      obtain ⟨hne, hle, hall⟩ := ih hnext
      refine ⟨hne, hle, fun r' hr' hused => ?_⟩
      rcases mem_cons.mp hr' with rfl | hr'
      · exact UInt32.le_trans (UInt32.not_lt.mp fun hlt => hgreater ⟨hused, hlt⟩) hle
      · exact hall r' hr' hused

theorem lt_add_one_of_ne_empty {id last : UInt32} (hlast : last ≠ EMPTY_GARD_RECORDID)
    (hle : id ≤ last) : id < last + 1 := by
  have hne : last.toNat ≠ EMPTY_GARD_RECORDID.toNat := fun h => hlast (UInt32.toNat_inj.mp h)
  have hlt := last.toNat_lt
  rw [show EMPTY_GARD_RECORDID.toNat = 2 ^ 32 - 1 from rfl] at hne
  rw [UInt32.le_iff_toNat_le] at hle
  rw [UInt32.lt_iff_toNat_lt, UInt32.toNat_add, show (1 : UInt32).toNat = 1 from rfl]
  omega

theorem lt_nextGardRecordId {records : List GardRecord} {r : GardRecord} (hr : r ∈ records)
    (hused : r.Used) : r.iv_recordId < nextGardRecordId records := by
  obtain ⟨hne, _, hall⟩ := @foldl_recordId records 0 (by decide)
  exact lt_add_one_of_ne_empty hne (hall r hr hused)

/-! ## The migration of the DIMM numbers -/

/-- The numbers of a path whose DIMM numbers can be doubled. -/
def EntityPath.Legacy (path : EntityPath) : Prop :=
  ∀ pe ∈ path.iv_pathElement, pe.type = TYPE_DIMM → pe.inst < 128

theorem double_inj {a b : UInt8} (ha : a < 128) (hb : b < 128) (h : a * 2 = b * 2) : a = b := by
  have hnat := congrArg UInt8.toNat h
  rw [UInt8.toNat_mul, UInt8.toNat_mul, show (2 : UInt8).toNat = 2 from rfl] at hnat
  rw [UInt8.lt_iff_toNat_lt, show (128 : UInt8).toNat = 128 from rfl] at ha hb
  exact UInt8.toNat_inj.mp (by omega)

theorem doubleDimm_inj {p q d : List PathElement}
    (hp : ∀ pe ∈ p, pe.type = TYPE_DIMM → pe.inst < 128)
    (hq : ∀ pe ∈ q, pe.type = TYPE_DIMM → pe.inst < 128)
    (hpd : doubleDimm p = some d) (hqd : doubleDimm q = some d) : p = q := by
  induction p generalizing q d with
  | nil => cases hpd
  | cons pe p ih =>
    cases q with
    | nil => cases hqd
    | cons pe' q =>
      unfold doubleDimm at hpd hqd
      split at hpd
      · rename_i htype
        cases hpd
        split at hqd
        · rename_i htype'
          have hinst := hp pe mem_cons_self htype
          have hinst' := hq pe' mem_cons_self htype'
          obtain ⟨type, inst⟩ := pe
          obtain ⟨type', inst'⟩ := pe'
          simp only [Option.some.injEq, List.cons.injEq, PathElement.mk.injEq] at hqd
          obtain ⟨⟨rfl, hdouble⟩, rfl⟩ := hqd
          have heq : inst = inst' := double_inj hinst hinst' hdouble.symm
          rw [heq]
        · rename_i htype'
          obtain ⟨d', _, hd'⟩ := Option.map_eq_some_iff.mp hqd
          simp only [List.cons.injEq] at hd'
          rw [hd'.1] at htype'
          exact absurd htype htype'
      · rename_i htype
        obtain ⟨d', hpd', rfl⟩ := Option.map_eq_some_iff.mp hpd
        split at hqd
        · rename_i htype'
          simp only [Option.some.injEq, List.cons.injEq] at hqd
          rw [← hqd.1] at htype
          exact absurd htype' htype
        · obtain ⟨d'', hqd', hd''⟩ := Option.map_eq_some_iff.mp hqd
          simp only [List.cons.injEq] at hd''
          obtain ⟨rfl, rfl⟩ := hd''
          rw [ih (fun x hx => hp x (mem_cons_of_mem _ hx))
            (fun x hx => hq x (mem_cons_of_mem _ hx)) hpd' hqd']

theorem doubleDimm_isSome {p d : List PathElement} (h : doubleDimm p = some d) :
    (doubleDimm d).isSome := by
  induction p generalizing d with
  | nil => cases h
  | cons pe p ih =>
    unfold doubleDimm at h
    split at h
    · rename_i htype
      cases h
      unfold doubleDimm
      rw [if_pos htype]
      rfl
    · rename_i htype
      obtain ⟨d', hd', rfl⟩ := Option.map_eq_some_iff.mp h
      unfold doubleDimm
      rw [if_neg htype, Option.isSome_map]
      exact ih hd'

/-- What the migration makes of a record. -/
def migrateRecord (r : GardRecord) : GardRecord :=
  if r.iv_recordId = EMPTY_GARD_RECORDID then r
  else
    match doubleDimm r.iv_targetId.iv_pathElement with
    | some path => { r with iv_targetId := { r.iv_targetId with iv_pathElement := path } }
    | none => r

attribute [grind =] migrateRecord

/-- The comparison with the old versions of the changed records finds each
record again. -/
theorem replaceChanged_migrate (records : List GardRecord) :
    replaceChanged (migrateDimmGardRecordsForward records) records = records.map migrateRecord := by
  unfold replaceChanged
  refine map_congr_left fun r hr => ?_
  cases hfind : (migrateDimmGardRecordsForward records).find? fun pair => pair.1 = r with
  | some pair =>
    have hfirst : pair.1 = r := by simpa using find?_some hfind
    obtain ⟨r', _, hpair⟩ := mem_filterMap.mp (mem_of_find?_eq_some hfind)
    split at hpair
    · cases hpair
    · rename_i hused
      obtain ⟨path, hpath, rfl⟩ := Option.map_eq_some_iff.mp hpair
      dsimp only at hfirst ⊢
      subst hfirst
      unfold migrateRecord
      rw [if_neg hused, hpath]
  | none =>
    show r = migrateRecord r
    unfold migrateRecord
    by_cases hempty : r.iv_recordId = EMPTY_GARD_RECORDID
    · rw [if_pos hempty]
    · rw [if_neg hempty]
      cases hpath : doubleDimm r.iv_targetId.iv_pathElement with
      | none => rfl
      | some path =>
        have hmem : (r, { r with iv_targetId := { r.iv_targetId with iv_pathElement := path } })
            ∈ migrateDimmGardRecordsForward records := by
          refine mem_filterMap.mpr ⟨r, hr, ?_⟩
          rw [if_neg hempty, hpath]
          rfl
        exact absurd (decide_eq_true rfl) (find?_eq_none.mp hfind _ hmem)

theorem migrateRecord_recordId (r : GardRecord) :
    (migrateRecord r).iv_recordId = r.iv_recordId := by
  unfold migrateRecord
  split
  · rfl
  · split <;> rfl

theorem migrateRecord_errorType (r : GardRecord) :
    (migrateRecord r).iv_errorType = r.iv_errorType := by
  unfold migrateRecord
  split
  · rfl
  · split <;> rfl

theorem migrateRecord_inj {r r' : GardRecord} (hused : r.Used) (hused' : r'.Used)
    (hr : r.iv_targetId.Legacy) (hr' : r'.iv_targetId.Legacy)
    (h : (migrateRecord r).iv_targetId = (migrateRecord r').iv_targetId) :
    r.iv_targetId = r'.iv_targetId := by
  obtain ⟨id, ⟨type, path⟩, eid, error⟩ := r
  obtain ⟨id', ⟨type', path'⟩, eid', error'⟩ := r'
  unfold migrateRecord at h
  rw [if_neg hused, if_neg hused'] at h
  unfold EntityPath.Legacy at hr hr'
  dsimp only at h hr hr' ⊢
  cases hp : doubleDimm path with
  | some d =>
    cases hp' : doubleDimm path' with
    | some d' =>
      rw [hp, hp'] at h
      simp only [EntityPath.mk.injEq] at h
      obtain ⟨rfl, rfl⟩ := h
      rw [doubleDimm_inj hr hr' hp hp']
    | none =>
      rw [hp, hp'] at h
      simp only [EntityPath.mk.injEq] at h
      obtain ⟨_, rfl⟩ := h
      have hsome := doubleDimm_isSome hp
      rw [hp'] at hsome
      cases hsome
  | none =>
    cases hp' : doubleDimm path' with
    | some d' =>
      rw [hp, hp'] at h
      simp only [EntityPath.mk.injEq] at h
      obtain ⟨_, rfl⟩ := h
      have hsome := doubleDimm_isSome hp'
      rw [hp] at hsome
      cases hsome
    | none =>
      rw [hp, hp'] at h
      exact h

/-! ## The invariant -/

/-- A repository that has been set up. -/
structure SetUp (s : State) (hb : HBDeconfigGard) : Prop where
  max : hb.iv_maxGardRecords = s.memory.iv_gardRecords.length
  current : hb.iv_GardVersion = CURRENT_GARD_VERSION_LAYOUT
  version : s.memory.iv_version = CURRENT_GARD_VERSION_LAYOUT
  below : ∀ r ∈ s.memory.iv_gardRecords, r.Used → r.iv_recordId < hb.iv_nextGardRecordId

/-- What every call keeps. -/
structure Ok (cfg : Config) (s : State) : Prop where
  synced : s.pnor = s.memory
  apart : AllApart cfg s.memory.iv_gardRecords
  fits : s.memory.iv_gardRecords.length < 2 ^ 32 - 1
  legacy : s.memory.iv_version = GARD_VERSION_P10_GA →
    ∀ r ∈ s.memory.iv_gardRecords, r.Used → r.iv_targetId.Legacy
  setUp : ∀ hb, s.iv_platDeconfigGard = some hb → SetUp s hb

theorem checkVersion_current (binary : GardRecordsBinary) :
    (checkVersion binary).iv_version = CURRENT_GARD_VERSION_LAYOUT := by
  unfold checkVersion
  split
  · assumption
  · split <;> rfl

theorem checkVersion_length (binary : GardRecordsBinary) :
    (checkVersion binary).iv_gardRecords.length = binary.iv_gardRecords.length := by
  unfold checkVersion replaceChanged
  split
  · rfl
  · split
    · exact length_map _
    · exact length_map _

theorem checkVersion_apart {binary : GardRecordsBinary}
    (hapart : AllApart cfg binary.iv_gardRecords)
    (hlegacy : binary.iv_version = GARD_VERSION_P10_GA →
      ∀ r ∈ binary.iv_gardRecords, r.Used → r.iv_targetId.Legacy) :
    AllApart cfg (checkVersion binary).iv_gardRecords := by
  unfold checkVersion
  split
  · exact hapart
  · split
    · rename_i hversion
      dsimp only
      rw [replaceChanged_migrate]
      have hused : ∀ {r}, (migrateRecord r).Used → r.Used := by
        intro r hr
        unfold GardRecord.Used at hr ⊢
        rwa [migrateRecord_recordId] at hr
      refine hapart.map (fun r _ hr => ⟨hused hr, migrateRecord_recordId r,
        migrateRecord_errorType r⟩) fun r hr r' hr' hu hu' heq => ?_
      exact migrateRecord_inj (hused hu) (hused hu') (hlegacy hversion r hr (hused hu))
        (hlegacy hversion r' hr' (hused hu')) heq
    · refine hapart.map (fun r _ hr => absurd rfl hr) fun r _ r' _ hr => absurd rfl hr

theorem gardRecordIdSetup_ok {s : State} (h : Ok cfg s) : Ok cfg (gardRecordIdSetup cfg s).1 := by
  obtain ⟨info, hinfo, -⟩ := @getGardSectionInfo_cases cfg s
  unfold gardRecordIdSetup
  generalize getGardSectionInfo cfg s = answer at hinfo
  obtain ⟨s1, found⟩ := answer
  obtain rfl : s1 = _ := hinfo
  -- the invariant says nothing of the answer that is remembered
  have h1 : Ok cfg { s with g_GardSectionInfo := info } :=
    ⟨h.synced, h.apart, h.fits, h.legacy, fun hb hhb => ⟨(h.setUp hb hhb).max,
      (h.setUp hb hhb).current, (h.setUp hb hhb).version, (h.setUp hb hhb).below⟩⟩
  split
  · exact h
  · split
    · rename_i heq
      cases heq
      exact h1
    · rename_i heq
      cases heq
      exact h1
    · rename_i heq
      cases heq
      refine ⟨?_, checkVersion_apart h.apart h.legacy, ?_, ?_, ?_⟩
      · dsimp only
        split
        · rename_i hcurrent
          unfold checkVersion
          rw [if_pos hcurrent]
          exact h.synced
        · rfl
      · dsimp only
        rw [checkVersion_length]
        exact h.fits
      · intro hversion
        dsimp only at hversion
        rw [checkVersion_current] at hversion
        cases hversion
      · rintro hb ⟨⟩
        exact ⟨rfl, rfl, checkVersion_current _, fun r hr hused => lt_nextGardRecordId hr hused⟩

/-- The set up leaves the records alone when it has been done, and when they
have the current layout. -/
theorem gardRecordIdSetup_records {s : State}
    (h : s.iv_platDeconfigGard.isSome = true
      ∨ s.memory.iv_version = CURRENT_GARD_VERSION_LAYOUT) :
    (gardRecordIdSetup cfg s).1.memory = s.memory := by
  obtain ⟨info, hinfo, -⟩ := @getGardSectionInfo_cases cfg s
  unfold gardRecordIdSetup
  generalize getGardSectionInfo cfg s = answer at hinfo
  obtain ⟨s1, found⟩ := answer
  obtain rfl : s1 = _ := hinfo
  split
  · rfl
  · rename_i hnone
    have hcurrent := h.resolve_left hnone
    split
    · rename_i heq
      cases heq
      rfl
    · rename_i heq
      cases heq
      rfl
    · rename_i heq
      cases heq
      dsimp only
      unfold checkVersion
      rw [if_pos hcurrent]

/-! ## The calls -/

section
variable {s : State} {i : Nat} {r : GardRecord}

theorem State.writeRecord_synced (h : s.pnor = s.memory) :
    (s.writeRecord i r).pnor = (s.writeRecord i r).memory := by
  unfold State.writeRecord
  dsimp only
  rw [h]

theorem mem_writeRecord {r' : GardRecord} (h : r' ∈ (s.writeRecord i r).memory.iv_gardRecords) :
    r' = r ∨ r' ∈ s.memory.iv_gardRecords := (mem_or_eq_of_mem_set h).symm

/-- A record that gets along with the others is written into a repository that
has been set up. -/
theorem Ok.writeRecord (h : Ok cfg s) {hb : HBDeconfigGard} (hsetUp : SetUp s hb)
    (hr : ∀ j r', j ≠ i → s.memory.iv_gardRecords[j]? = some r' → Apart cfg r r')
    (hbelow : r.Used → r.iv_recordId < hb.iv_nextGardRecordId)
    (hhb : s.iv_platDeconfigGard = some hb) : Ok cfg (s.writeRecord i r) := by
  refine ⟨State.writeRecord_synced h.synced, h.apart.set hr, ?_, ?_, ?_⟩
  · show (s.memory.iv_gardRecords.set i r).length < 2 ^ 32 - 1
    rw [length_set]
    exact h.fits
  · intro hversion
    have hcurrent : s.memory.iv_version = GARD_VERSION_P10_GA := hversion
    rw [hsetUp.version] at hcurrent
    cases hcurrent
  · intro hb' hhb'
    obtain rfl : hb = hb' := Option.some.inj (hhb.symm.trans hhb')
    refine ⟨?_, hsetUp.current, hsetUp.version, fun r' hr' hused => ?_⟩
    · show _ = (s.memory.iv_gardRecords.set i r).length
      rw [length_set]
      exact hsetUp.max
    · rcases mem_writeRecord hr' with rfl | hr'
      · exact hbelow hused
      · exact hsetUp.below r' hr' hused

/-- The record of a duplicate is overwritten by a record of its own kind. -/
theorem overwritten_apart (h : Ok cfg s) (hr : s.memory.iv_gardRecords[i]? = some r)
    (hused : r.Used) {errorType : GardErrorType} {eid : UInt32}
    (hdup : isDupGardRecord cfg r.iv_errorType errorType = true) {j : Nat} {r' : GardRecord}
    (hj : j ≠ i) (hr' : s.memory.iv_gardRecords[j]? = some r') :
    Apart cfg { r with iv_errlogEid := eid, iv_errorType := errorType } r' := by
  intro _ hused'
  obtain ⟨hid, htarget⟩ := h.apart i j r r' (Ne.symm hj) hr hr' hused hused'
  refine ⟨hid, fun heq => ?_⟩
  rw [isDupGardRecord_congr hdup]
  exact htarget heq

end

/-- What `platCreateGardRecord` does: nothing, or set up the repository, and
then at most one write. -/
theorem platCreateGardRecord_cases (s : State) (target : Target) (eid : UInt32)
    (errorType : GardErrorType) :
    let s' := (platCreateGardRecord cfg s target eid errorType).1
    let s1 := (gardRecordIdSetup cfg s).1
    s' = s ∨ s' = s1 ∨
    (∃ first, s' = { s1 with firstPredictiveError := first }) ∨
    (∃ hb i r, s1.iv_platDeconfigGard = some hb ∧ s1.memory.iv_gardRecords[i]? = some r ∧ r.Used ∧
      r.iv_targetId = target.physPath ∧ isDupGardRecord cfg r.iv_errorType errorType = true ∧
      s' = s1.writeRecord i { r with iv_errlogEid := eid, iv_errorType := errorType }) ∨
    ∃ hb i r first, s1.iv_platDeconfigGard = some hb ∧ s1.memory.iv_gardRecords[i]? = some r ∧
      ¬r.Used ∧ hb.iv_nextGardRecordId.toNat < hb.iv_maxGardRecords ∧
      (∀ r ∈ s1.memory.iv_gardRecords, r.Used → r.iv_targetId = target.physPath →
        isDupGardRecord cfg r.iv_errorType errorType = false) ∧
      s' = { s1.writeRecord i ⟨hb.iv_nextGardRecordId, target.physPath, eid, errorType⟩ with
        firstPredictiveError := first
        iv_platDeconfigGard := some
          { hb with iv_nextGardRecordId := hb.iv_nextGardRecordId + 1 } } := by
  dsimp only
  unfold platCreateGardRecord
  split
  · exact Or.inl rfl
  · split
    · exact Or.inl rfl
    · split
      · exact Or.inl rfl
      · split
        · exact Or.inl rfl
        · generalize gardRecordIdSetup cfg s = result
          obtain ⟨s1, err⟩ := result
          cases err with
          | some err => exact Or.inr (Or.inl rfl)
          | none =>
            dsimp only
            cases hhb : s1.iv_platDeconfigGard with
            | none => exact Or.inr (Or.inl rfl)
            | some hb =>
              dsimp only
              split
              · rename_i i hscan
                obtain ⟨_, r, hr, hused, htarget, hdup⟩ := scan_duplicate hscan
                rw [Nat.sub_zero] at hr
                rw [hr]
                dsimp only
                split
                · exact Or.inr (Or.inr (Or.inr (Or.inl ⟨hb, i, r, rfl, hr, hused, htarget, hdup, rfl⟩)))
                · exact Or.inr (Or.inl rfl)
              · exact Or.inr (Or.inl rfl)
              · rename_i i hscan
                obtain ⟨hnone, hplace⟩ := scan_free hscan
                obtain ⟨_, r, hr, hfree⟩ := hplace.resolve_left fun h => by cases h
                rw [Nat.sub_zero] at hr
                split
                · exact Or.inr (Or.inl rfl)
                · rename_i hroom
                  split
                  · exact Or.inr (Or.inr (Or.inl ⟨_, rfl⟩))
                  · refine Or.inr (Or.inr (Or.inr (Or.inr ⟨hb, i, r, _, rfl, hr, hfree, ?_,
                      hnone, rfl⟩)))
                    by_contra hlt
                    refine hroom ⟨?_, hlt⟩
                    have hmod := Nat.mod_le (hb.iv_maxGardRecords * 9) (2 ^ 32)
                    unfold HWAS_90_PERCENT_OF
                    omega

theorem platCreateGardRecord_ok {s : State} (h : Ok cfg s) (target : Target) (eid : UInt32)
    (errorType : GardErrorType) : Ok cfg (platCreateGardRecord cfg s target eid errorType).1 := by
  have h1 : Ok cfg (gardRecordIdSetup cfg s).1 := gardRecordIdSetup_ok h
  rcases @platCreateGardRecord_cases cfg s target eid errorType with
    heq | heq | ⟨first, heq⟩ | ⟨hb, i, r, hhb, hr, hused, _, hdup, heq⟩ |
    ⟨hb, i, r, first, hhb, hr, hfree, hroom, hnone, heq⟩
  · rw [heq]
    exact h
  · rw [heq]
    exact h1
  · rw [heq]
    exact ⟨h1.synced, h1.apart, h1.fits, h1.legacy, fun hb hhb =>
      ⟨(h1.setUp hb hhb).max, (h1.setUp hb hhb).current, (h1.setUp hb hhb).version,
        (h1.setUp hb hhb).below⟩⟩
  · rw [heq]
    have hsetUp := h1.setUp hb hhb
    exact h1.writeRecord hsetUp (fun j r' hj hr' => overwritten_apart h1 hr hused hdup hj hr')
      (fun _ => hsetUp.below r (mem_of_getElem? hr) hused) hhb
  · rw [heq]
    have hsetUp := h1.setUp hb hhb
    have hfits := h1.fits
    have hmax := hsetUp.max
    have hnext : hb.iv_nextGardRecordId < hb.iv_nextGardRecordId + 1 := by
      refine lt_add_one_of_ne_empty (fun hempty => ?_) (UInt32.le_refl _)
      have hval := congrArg UInt32.toNat hempty
      rw [show EMPTY_GARD_RECORDID.toNat = 2 ^ 32 - 1 from rfl] at hval
      omega
    generalize (gardRecordIdSetup cfg s).1 = s1 at h1 hhb hr hnone hsetUp hfits hmax ⊢
    have hsetUp' : SetUp { s1 with
        firstPredictiveError := first
        iv_platDeconfigGard := some { hb with iv_nextGardRecordId := hb.iv_nextGardRecordId + 1 } }
        { hb with iv_nextGardRecordId := hb.iv_nextGardRecordId + 1 } :=
      ⟨hmax, hsetUp.current, hsetUp.version,
        fun r' hr' hused => UInt32.lt_trans (hsetUp.below r' hr' hused) hnext⟩
    refine @Ok.writeRecord cfg { s1 with
        firstPredictiveError := first
        iv_platDeconfigGard := some { hb with iv_nextGardRecordId := hb.iv_nextGardRecordId + 1 } }
      i _ ⟨h1.synced, h1.apart, h1.fits, h1.legacy, ?_⟩ _ hsetUp'
      (fun j r' _ hr' => ?_) (fun _ => hnext) rfl
    · rintro hb' ⟨⟩
      exact hsetUp'
    · -- the new id is above all others, and the scan has met no duplicate
      intro _ hused'
      have hmem := mem_of_getElem? hr'
      refine ⟨fun hid => ?_, fun htarget => ?_⟩
      · have hlt := hsetUp.below r' hmem hused'
        rw [← hid] at hlt
        exact UInt32.lt_irrefl _ hlt
      · rw [isDupGardRecord_comm]
        exact hnone r' hmem hused' htarget.symm

/-- A record that has been cleared. -/
def cleared (r : GardRecord) : GardRecord := { r with iv_recordId := EMPTY_GARD_RECORDID }

theorem cleared_unused (r : GardRecord) : ¬(cleared r).Used := fun h => h rfl

theorem clearLoop_hb (target : Option Target) (clearOnlyDeconfig : Bool)
    (records : List GardRecord) (i : Nat) (s : State) :
    (clearLoop cfg target clearOnlyDeconfig records i s).iv_platDeconfigGard
      = s.iv_platDeconfigGard := by
  induction records generalizing i s with
  | nil => rfl
  | cons r records ih =>
    unfold clearLoop
    split
    · dsimp only
      split
      · rfl
      · rw [ih]
        rfl
    · exact ih _ _

theorem clearLoop_ok {s : State} (h : Ok cfg s) {hb : HBDeconfigGard}
    (hhb : s.iv_platDeconfigGard = some hb) (target : Option Target) (clearOnlyDeconfig : Bool)
    (records : List GardRecord) (i : Nat) :
    Ok cfg (clearLoop cfg target clearOnlyDeconfig records i s) := by
  induction records generalizing i s with
  | nil => exact h
  | cons r records ih =>
    have hwrite : Ok cfg (s.writeRecord i (cleared r)) :=
      h.writeRecord (h.setUp hb hhb) (fun _ _ _ _ hused => absurd hused (cleared_unused r))
        (fun hused => absurd hused (cleared_unused r)) hhb
    unfold clearLoop
    split
    · dsimp only
      split
      · exact hwrite
      · exact ih hwrite hhb (i + 1)
    · exact ih h hhb (i + 1)

theorem drop_eq_cons {l records : List GardRecord} {i : Nat} {r : GardRecord}
    (h : l.drop i = r :: records) : l[i]? = some r ∧ l.drop (i + 1) = records := by
  constructor
  · rw [← Nat.add_zero i, ← getElem?_drop, h]
    rfl
  · rw [← tail_drop, h]
    rfl

theorem clearLoop_records {s : State} (target : Option Target) (clearOnlyDeconfig : Bool)
    {records : List GardRecord} {i : Nat} (hdrop : s.memory.iv_gardRecords.drop i = records)
    (j : Nat) :
    (clearLoop cfg target clearOnlyDeconfig records i s).memory.iv_gardRecords[j]?
        = s.memory.iv_gardRecords[j]? ∨
      ∃ r, s.memory.iv_gardRecords[j]? = some r ∧ clears cfg target clearOnlyDeconfig r = true ∧
        (clearLoop cfg target clearOnlyDeconfig records i s).memory.iv_gardRecords[j]?
          = some (cleared r) := by
  induction records generalizing i s with
  | nil => exact Or.inl rfl
  | cons r records ih =>
    obtain ⟨hget, hdrop'⟩ := drop_eq_cons hdrop
    unfold clearLoop
    split
    · rename_i hclears
      have hset : ∀ k, (s.writeRecord i (cleared r)).memory.iv_gardRecords[k]?
          = if k = i then some (cleared r) else s.memory.iv_gardRecords[k]? := by
        intro k
        show (s.memory.iv_gardRecords.set i (cleared r))[k]? = _
        rw [getElem?_set]
        by_cases hk : k = i
        · rw [if_pos hk.symm, if_pos hk, if_pos (List.getElem?_eq_some_iff.mp hget).1]
        · rw [if_neg (Ne.symm hk), if_neg hk]
      dsimp only
      split
      · -- the loop ends here
        by_cases hj : j = i
        · subst hj
          exact Or.inr ⟨r, hget, hclears, (hset j).trans (if_pos rfl)⟩
        · exact Or.inl ((hset j).trans (if_neg hj))
      · have hdrop'' : (s.writeRecord i (cleared r)).memory.iv_gardRecords.drop (i + 1)
            = records := by
          show (s.memory.iv_gardRecords.set i (cleared r)).drop (i + 1) = records
          rw [drop_set_of_lt (Nat.lt_succ_self i)]
          exact hdrop'
        have hstep := ih hdrop''
        rw [hset j] at hstep
        by_cases hj : j = i
        · subst hj
          rw [if_pos rfl] at hstep
          rcases hstep with hsame | ⟨r', hr', hclears', _⟩
          · exact Or.inr ⟨r, hget, hclears, hsame⟩
          · cases hr'
            exact absurd hclears' (by simp [clears, cleared])
        · rw [if_neg hj] at hstep
          exact hstep
    · exact ih hdrop'

theorem clearLoop_all {s : State} (clearOnlyDeconfig : Bool) {records : List GardRecord} {i : Nat}
    (hdrop : s.memory.iv_gardRecords.drop i = records) :
    (clearLoop cfg none clearOnlyDeconfig records i s).memory.iv_gardRecords
      = s.memory.iv_gardRecords.take i ++
        records.map fun r => if clears cfg none clearOnlyDeconfig r then cleared r else r := by
  induction records generalizing i s with
  | nil =>
    rw [map_nil, append_nil, take_of_length_le (drop_eq_nil_iff.mp hdrop)]
    rfl
  | cons r records ih =>
    obtain ⟨hget, hdrop'⟩ := drop_eq_cons hdrop
    have htake : ∀ x, (s.memory.iv_gardRecords.set i x).take (i + 1)
        = s.memory.iv_gardRecords.take i ++ [x] := by
      intro x
      have hlt := (List.getElem?_eq_some_iff.mp hget).1
      rw [take_succ_eq_append_getElem (by rw [length_set]; exact hlt),
        getElem_set_self, take_set_of_le (Nat.le_refl i)]
    unfold clearLoop
    rw [map_cons]
    split
    · rw [if_neg (by simp)]
      have hdrop'' : (s.memory.iv_gardRecords.set i (cleared r)).drop (i + 1) = records := by
        rw [drop_set_of_lt (Nat.lt_succ_self i)]
        exact hdrop'
      refine (@ih (s.writeRecord i (cleared r)) (i + 1) hdrop'').trans ?_
      show (s.memory.iv_gardRecords.set i (cleared r)).take (i + 1) ++ _ = _
      rw [htake, append_assoc]
      rfl
    · have hsame : s.memory.iv_gardRecords.take (i + 1) = s.memory.iv_gardRecords.take i ++ [r] := by
        rw [take_add_one, hget]
        rfl
      rw [ih hdrop', hsame, append_assoc]
      rfl

/-- What `platClearGardRecords` does: nothing, or set up the repository and run
the loop. -/
theorem platClearGardRecords_cases (s : State) (target : Option Target)
    (clearOnlyDeconfig : Bool) :
    let s' := (platClearGardRecords cfg s target clearOnlyDeconfig).1
    let s1 := (gardRecordIdSetup cfg s).1
    let s2 := clearLoop cfg target clearOnlyDeconfig s1.memory.iv_gardRecords 0 s1
    (s' = s1 ∧ ((gardRecordIdSetup cfg s).2.isSome = true ∨ s1.iv_platDeconfigGard = none)) ∨
    ∃ hb, s1.iv_platDeconfigGard = some hb ∧
      (s' = s2 ∨ s' = { s2 with
        memory := { s2.memory with iv_version := CURRENT_GARD_VERSION_LAYOUT }
        pnor := { s2.pnor with iv_version := CURRENT_GARD_VERSION_LAYOUT }
        iv_platDeconfigGard := some { hb with iv_GardVersion := CURRENT_GARD_VERSION_LAYOUT } }) := by
  dsimp only
  unfold platClearGardRecords
  generalize gardRecordIdSetup cfg s = result
  obtain ⟨s1, err⟩ := result
  cases err with
  | some err => exact Or.inl ⟨rfl, Or.inl rfl⟩
  | none =>
    dsimp only
    cases hhb : s1.iv_platDeconfigGard with
    | none => exact Or.inl ⟨rfl, Or.inr rfl⟩
    | some hb =>
      refine Or.inr ⟨hb, rfl, ?_⟩
      dsimp only
      split
      · exact Or.inl rfl
      · exact Or.inr rfl

theorem platClearGardRecords_ok {s : State} (h : Ok cfg s) (target : Option Target)
    (clearOnlyDeconfig : Bool) : Ok cfg (platClearGardRecords cfg s target clearOnlyDeconfig).1 := by
  have h1 : Ok cfg (gardRecordIdSetup cfg s).1 := gardRecordIdSetup_ok h
  rcases @platClearGardRecords_cases cfg s target clearOnlyDeconfig with
    ⟨heq, _⟩ | ⟨hb, hhb, heq | heq⟩
  · rw [heq]
    exact h1
  · rw [heq]
    exact clearLoop_ok h1 hhb target clearOnlyDeconfig _ 0
  · have h2 := clearLoop_ok h1 hhb target clearOnlyDeconfig
      (gardRecordIdSetup cfg s).1.memory.iv_gardRecords 0
    have hsetUp := h2.setUp hb (by rw [clearLoop_hb]; exact hhb)
    rw [heq]
    refine ⟨?_, h2.apart, h2.fits, fun hversion => (by cases hversion), ?_⟩
    · dsimp only
      rw [h2.synced]
    · rintro hb' ⟨⟩
      exact ⟨hsetUp.max, rfl, rfl, hsetUp.below⟩

theorem boot_ok {s : State} (h : Ok cfg s) : Ok cfg (.boot s.pnor) := by
  rw [h.synced]
  exact ⟨rfl, h.apart, h.fits, h.legacy, fun hb hhb => by cases hhb⟩

theorem step_ok {s : State} (h : Ok cfg s) (call : Call) : Ok cfg (step cfg s call) := by
  cases call with
  | create target eid errorType => exact platCreateGardRecord_ok h target eid errorType
  | clear target clearOnlyDeconfig => exact platClearGardRecords_ok h target clearOnlyDeconfig
  | boot => exact boot_ok h

theorem run_ok {s : State} (h : Ok cfg s) (calls : List Call) : Ok cfg (calls.foldl (step cfg) s) := by
  induction calls generalizing s with
  | nil => exact h
  | cons call calls ih => exact ih (step_ok h call)

/-! ## The repository -/

/-- The ids of the records that are not empty. -/
def DistinctIds (records : List GardRecord) : Prop :=
  ∀ (i j : Nat) (r r' : GardRecord), i ≠ j → records[i]? = some r → records[j]? = some r' →
    r.Used → r'.Used → r.iv_recordId ≠ r'.iv_recordId

/-- Two records of one target: there are none on an FSP system, and on an eBMC
system exactly one of them is of a deconfig type. -/
def RecordsOfTarget (cfg : Config) (records : List GardRecord) : Prop :=
  ∀ (i j : Nat) (r r' : GardRecord), i ≠ j → records[i]? = some r → records[j]? = some r' →
    r.Used → r'.Used → r.iv_targetId = r'.iv_targetId →
    cfg.spBaseServicesEnabled = false ∧
      isDeconfigGard r.iv_errorType ≠ isDeconfigGard r'.iv_errorType

/-- The persisted repositories that the invariant admits.  A layout older than
the current one counts the DIMMs so that their numbers can be doubled. -/
structure Persisted (cfg : Config) (pnor : GardRecordsBinary) : Prop where
  ids : DistinctIds pnor.iv_gardRecords
  targets : RecordsOfTarget cfg pnor.iv_gardRecords
  fits : pnor.iv_gardRecords.length < 2 ^ 32 - 1
  legacy : pnor.iv_version = GARD_VERSION_P10_GA →
    ∀ r ∈ pnor.iv_gardRecords, r.Used → r.iv_targetId.Legacy

theorem allApart_iff {records : List GardRecord} :
    AllApart cfg records ↔ DistinctIds records ∧ RecordsOfTarget cfg records := by
  constructor
  · intro h
    refine ⟨fun i j r r' hne hr hr' hused hused' => (h i j r r' hne hr hr' hused hused').1,
      fun i j r r' hne hr hr' hused hused' heq => ?_⟩
    exact isDupGardRecord_eq_false.mp ((h i j r r' hne hr hr' hused hused').2 heq)
  · rintro ⟨hids, htargets⟩ i j r r' hne hr hr' hused hused'
    refine ⟨hids i j r r' hne hr hr' hused hused', fun heq => ?_⟩
    exact isDupGardRecord_eq_false.mpr (htargets i j r r' hne hr hr' hused hused' heq)

theorem Persisted.ok {pnor : GardRecordsBinary} (h : Persisted cfg pnor) : Ok cfg (.boot pnor) :=
  ⟨rfl, allApart_iff.2 ⟨h.ids, h.targets⟩, h.fits, h.legacy, fun hb hhb => by cases hhb⟩

/-- What a call changes in the records, once the set up is behind it. -/
def Changes (cfg : Config) (s : State) : Call → Prop
  | .create target eid errorType =>
    let before := (gardRecordIdSetup cfg s).1.memory.iv_gardRecords
    let after := (platCreateGardRecord cfg s target eid errorType).1.memory.iv_gardRecords
    (platCreateGardRecord cfg s target eid errorType).1 = s ∨
      ∀ i : Nat, after[i]? = before[i]? ∨ ∃ r r', before[i]? = some r ∧ after[i]? = some r' ∧
        (r.Used → r.iv_targetId = target.physPath) ∧ r'.iv_targetId = target.physPath
  | .clear (some target) clearOnlyDeconfig =>
    let before := (gardRecordIdSetup cfg s).1.memory.iv_gardRecords
    let after := (platClearGardRecords cfg s target clearOnlyDeconfig).1.memory.iv_gardRecords
    ∀ i : Nat, after[i]? = before[i]? ∨ ∃ r, before[i]? = some r ∧ r.Used ∧
      r.iv_targetId = target.physPath ∧ after[i]? = some (cleared r)
  | .clear none clearOnlyDeconfig =>
    let before := (gardRecordIdSetup cfg s).1.memory.iv_gardRecords
    let after := (platClearGardRecords cfg s none clearOnlyDeconfig).1.memory.iv_gardRecords
    (gardRecordIdSetup cfg s).2 = none → (gardRecordIdSetup cfg s).1.iv_platDeconfigGard ≠ none →
      after = before.map fun r => if clears cfg none clearOnlyDeconfig r then cleared r else r
  | .boot => (step cfg s .boot).memory = s.memory

theorem changes {s : State} (h : Ok cfg s) (call : Call) : Changes cfg s call := by
  cases call with
  | boot => exact h.synced
  | create target eid errorType =>
    unfold Changes
    dsimp only
    rcases @platCreateGardRecord_cases cfg s target eid errorType with
      heq | heq | ⟨first, heq⟩ | ⟨hb, i, r, _, hr, hused, htarget, _, heq⟩ |
      ⟨hb, i, r, first, _, hr, hfree, _, _, heq⟩
    · exact Or.inl heq
    · exact Or.inr fun j => Or.inl (by rw [heq])
    · exact Or.inr fun j => Or.inl (by rw [heq])
    · refine Or.inr fun j => ?_
      rw [heq]
      by_cases hj : j = i
      · subst hj
        refine Or.inr ⟨r, { r with iv_errlogEid := eid, iv_errorType := errorType }, hr, ?_,
          fun _ => htarget, htarget⟩
        exact (getElem?_set_self (List.getElem?_eq_some_iff.mp hr).1)
      · exact Or.inl (getElem?_set_ne (Ne.symm hj))
    · refine Or.inr fun j => ?_
      rw [heq]
      by_cases hj : j = i
      · subst hj
        refine Or.inr ⟨r, ⟨hb.iv_nextGardRecordId, target.physPath, eid, errorType⟩, hr, ?_,
          fun hused => absurd hused hfree, rfl⟩
        exact (getElem?_set_self (List.getElem?_eq_some_iff.mp hr).1)
      · exact Or.inl (getElem?_set_ne (Ne.symm hj))
  | clear target clearOnlyDeconfig =>
    cases target with
    | some target =>
      unfold Changes
      dsimp only
      intro i
      have hloop := @clearLoop_records cfg (gardRecordIdSetup cfg s).1 (some target)
        clearOnlyDeconfig _ 0 drop_zero i
      have hclears : ∀ r, clears cfg (some target) clearOnlyDeconfig r = true →
          r.Used ∧ r.iv_targetId = target.physPath := by
        intro r hr
        simp only [clears, Bool.and_eq_true, decide_eq_true_eq] at hr
        exact hr.1
      rcases @platClearGardRecords_cases cfg s (some target) clearOnlyDeconfig with
        ⟨heq, _⟩ | ⟨hb, _, heq | heq⟩
      · exact Or.inl (by rw [heq])
      · rw [heq]
        exact hloop.imp_right fun ⟨r, hr, hsel, hafter⟩ =>
          ⟨r, hr, (hclears r hsel).1, (hclears r hsel).2, hafter⟩
      · rw [heq]
        exact hloop.imp_right fun ⟨r, hr, hsel, hafter⟩ =>
          ⟨r, hr, (hclears r hsel).1, (hclears r hsel).2, hafter⟩
    | none =>
      unfold Changes
      dsimp only
      intro herr hhb
      have hloop := @clearLoop_all cfg (gardRecordIdSetup cfg s).1 clearOnlyDeconfig _ 0
        drop_zero
      rw [take_zero, nil_append] at hloop
      rcases @platClearGardRecords_cases cfg s none clearOnlyDeconfig with
        ⟨_, herr' | hnone⟩ | ⟨hb, _, heq | heq⟩
      · rw [herr] at herr'
        cases herr'
      · exact absurd hnone hhb
      · rw [heq]
        exact hloop
      · rw [heq]
        exact hloop

/-- The GARD repository over any sequence of calls and boots: the records in
use have distinct ids below the next one, a target has as many records as its
system allows, and a call changes no more than it names.  The set up changes
no record of the current layout. -/
theorem guard_repository (cfg : Config) (pnor : GardRecordsBinary) (h : Persisted cfg pnor)
    (calls : List Call) :
    let s := calls.foldl (step cfg) (.boot pnor)
    DistinctIds s.memory.iv_gardRecords ∧
      (∀ hb, s.iv_platDeconfigGard = some hb →
        ∀ r ∈ s.memory.iv_gardRecords, r.Used → r.iv_recordId < hb.iv_nextGardRecordId) ∧
      RecordsOfTarget cfg s.memory.iv_gardRecords ∧
      (∀ call, Changes cfg s call) ∧
      (s.iv_platDeconfigGard.isSome = true
        ∨ s.memory.iv_version = CURRENT_GARD_VERSION_LAYOUT →
        (gardRecordIdSetup cfg s).1.memory = s.memory) := by
  have hok : Ok cfg (calls.foldl (step cfg) (.boot pnor)) := run_ok h.ok calls
  have hapart := allApart_iff.1 hok.apart
  exact ⟨hapart.1, fun hb hhb => (hok.setUp hb hhb).below, hapart.2, changes hok,
    gardRecordIdSetup_records⟩

/-- A partition without records. -/
def emptyPnor : GardRecordsBinary :=
  ⟨CURRENT_GARD_VERSION_LAYOUT, List.replicate 4 ⟨EMPTY_GARD_RECORDID, ⟨0, []⟩, 0, .GARD_NULL⟩⟩

theorem emptyPnor_persisted : Persisted cfg emptyPnor := by
  have hempty : ∀ (i : Nat) (r : GardRecord), emptyPnor.iv_gardRecords[i]? = some r → ¬r.Used := by
    intro i r hr hused
    rw [eq_of_mem_replicate (mem_of_getElem? hr)] at hused
    exact hused rfl
  exact ⟨fun i _ r _ _ hr _ hused => absurd hused (hempty i r hr),
    fun i _ r _ _ hr _ hused => absurd hused (hempty i r hr), by decide,
    fun hversion => (by cases hversion)⟩

/-- A DIMM fails twice, the system boots, the deconfig records are cleared and
the DIMM fails again. -/
def dimmCalls : List Call :=
  let dimm : Target := ⟨7, ⟨2, [⟨2, 0⟩, ⟨TYPE_DIMM, 4⟩]⟩, true, true⟩
  [.create dimm 1 .GARD_Fatal, .create dimm 2 .GARD_Reconfig, .boot, .clear none true,
    .create dimm 3 .GARD_Predictive]

theorem guard_repository_dimm :
    let s := dimmCalls.foldl (step ⟨false, false, false, .ok true⟩) (.boot emptyPnor)
    DistinctIds s.memory.iv_gardRecords ∧
      RecordsOfTarget ⟨false, false, false, .ok true⟩ s.memory.iv_gardRecords :=
  have h := guard_repository ⟨false, false, false, .ok true⟩ emptyPnor emptyPnor_persisted dimmCalls
  ⟨h.1, h.2.2.1⟩

end Hostboot.Hwas.Gard
