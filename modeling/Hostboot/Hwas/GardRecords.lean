import Mathlib.Algebra.Group.Nat.Defs
import Mathlib.Tactic.Common

/-!
# The GARD records

The guard partition of the PNOR is a header and a list of records of one size.
`DeconfigGard` works on the partition as it is mapped into memory, and a
`_flush` brings a record, or the page of the header, to the PNOR.  Both copies
are kept here; the flush is the one that succeeds.  At a boot the memory is
whatever the PNOR holds and nothing has been set up.

A record is empty when its id is `EMPTY_GARD_RECORDID`.  The unique id and the
padding of a record, which nothing reads, are left out, and so are the flags
of the header.
-/

namespace Hostboot.Hwas.Gard

/-! ## The data -/

/-- `GARD_ErrorType`. -/
inductive GardErrorType
  | GARD_NULL | GARD_User_Manual | GARD_Unrecoverable | GARD_Fatal | GARD_Predictive | GARD_Power
  | GARD_PHYP | GARD_Reconfig | GARD_Sticky_deconfig | GARD_Void
  deriving DecidableEq, Repr

def isDeconfigGard (gardType : GardErrorType) : Bool :=
  gardType = .GARD_Reconfig || gardType = .GARD_Sticky_deconfig

def TYPE_DIMM : UInt8 := 3

/-- `EntityPath::PathElement`, with the instance under another name. -/
structure PathElement where
  type : UInt8
  inst : UInt8
  deriving DecidableEq, Repr

/-- `EntityPath`: the elements that count. -/
structure EntityPath where
  iv_type : UInt8
  iv_pathElement : List PathElement
  deriving DecidableEq, Repr

def EMPTY_GARD_RECORDID : UInt32 := 0xFFFFFFFF

structure GardRecord where
  iv_recordId : UInt32
  iv_targetId : EntityPath
  iv_errlogEid : UInt32
  iv_errorType : GardErrorType
  deriving DecidableEq, Repr

def GARD_VERSION_P10_GA : UInt8 := 1
def CURRENT_GARD_VERSION_LAYOUT : UInt8 := 2

/-- `GardRecordsBinary`, with as many records as fit the section. -/
structure GardRecordsBinary where
  iv_version : UInt8
  iv_gardRecords : List GardRecord
  deriving DecidableEq, Repr

structure HBDeconfigGard where
  iv_nextGardRecordId : UInt32
  iv_maxGardRecords : Nat
  iv_GardVersion : UInt8
  deriving DecidableEq, Repr

/-- The attributes of a target that are read. -/
structure Target where
  huid : UInt32
  physPath : EntityPath
  present : Bool
  deconfigGardable : Bool

inductive Reasoncode
  | RC_TARGET_NOT_GARDABLE | RC_GARD_REPOSITORY_FULL | RC_PNOR_SECTION
  deriving DecidableEq, Repr

/-- An error log, with the two words of each of its user data. -/
structure Errl where
  reasoncode : Reasoncode
  userdata1 : UInt32 × UInt32
  userdata2 : UInt32 × UInt32
  deriving DecidableEq, Repr

/-- What does not change on a system: `spBaseServicesEnabled` tells an FSP
system from an eBMC one, two bits of the CDM policies, and what the PNOR
answers when it is asked for the section, an error or whether it is there. -/
structure Config where
  spBaseServicesEnabled : Bool
  manufacturingDisabled : Bool
  predictiveDisabled : Bool
  sectionInfo : Except Errl Bool

/-- The guard partition in memory and in the PNOR, `iv_platDeconfigGard`, the
static flag of `platCreateGardRecord`, and whether the section has a size once
`getGardSectionInfo` has been called. -/
structure State where
  memory : GardRecordsBinary
  pnor : GardRecordsBinary
  iv_platDeconfigGard : Option HBDeconfigGard
  firstPredictiveError : Bool
  g_GardSectionInfo : Option Bool

/-- The state at a boot. -/
def State.boot (pnor : GardRecordsBinary) : State := ⟨pnor, pnor, none, true, none⟩

/-- A record is written in memory and flushed. -/
def State.writeRecord (s : State) (i : Nat) (r : GardRecord) : State :=
  { s with
    memory := { s.memory with iv_gardRecords := s.memory.iv_gardRecords.set i r }
    pnor := { s.pnor with iv_gardRecords := s.pnor.iv_gardRecords.set i r } }

/-! ## The functions of the source -/

variable (cfg : Config)

def isDupGardRecord (existingGardType incomingGardType : GardErrorType) : Bool :=
  cfg.spBaseServicesEnabled || !(isDeconfigGard incomingGardType ^^ isDeconfigGard existingGardType)

/-- The instance of the first DIMM of a path is doubled. -/
def doubleDimm : List PathElement → Option (List PathElement)
  | [] => none
  | pe :: path =>
    if pe.type = TYPE_DIMM then some ({ pe with inst := pe.inst * 2 } :: path)
    else (doubleDimm path).map (pe :: ·)

/-- `migrateDimmGardRecordsForward`: the records that change, each before its
new version. -/
def migrateDimmGardRecordsForward (records : List GardRecord) : List (GardRecord × GardRecord) :=
  records.filterMap fun r =>
    if r.iv_recordId = EMPTY_GARD_RECORDID then none
    else (doubleDimm r.iv_targetId.iv_pathElement).map fun path =>
      (r, { r with iv_targetId := { r.iv_targetId with iv_pathElement := path } })

/-- The loop that replaces the records that have changed. -/
def replaceChanged (changes : List (GardRecord × GardRecord)) (records : List GardRecord) :
    List GardRecord :=
  records.map fun r =>
    match changes.find? fun pair => pair.1 = r with
    | some pair => pair.2
    | none => r

/-- The record id that follows the highest one in use. -/
def nextGardRecordId (records : List GardRecord) : UInt32 :=
  records.foldl (fun next r =>
    if r.iv_recordId ≠ EMPTY_GARD_RECORDID ∧ r.iv_recordId > next then r.iv_recordId else next) 0 + 1

/-- The partition behind the check of its version. -/
def checkVersion (binary : GardRecordsBinary) : GardRecordsBinary :=
  if binary.iv_version = CURRENT_GARD_VERSION_LAYOUT then binary
  else if binary.iv_version = GARD_VERSION_P10_GA then
    ⟨CURRENT_GARD_VERSION_LAYOUT,
      replaceChanged (migrateDimmGardRecordsForward binary.iv_gardRecords) binary.iv_gardRecords⟩
  else
    ⟨CURRENT_GARD_VERSION_LAYOUT,
      binary.iv_gardRecords.map fun r => { r with iv_recordId := EMPTY_GARD_RECORDID }⟩

attribute [grind =] checkVersion

/-- Only the first call asks the PNOR.  Once that has failed, the section has
no size, and later calls return no error. -/
def getGardSectionInfo (s : State) : State × Except Errl Bool :=
  match s.g_GardSectionInfo with
  | some found => (s, .ok found)
  | none => ({ s with g_GardSectionInfo := some (cfg.sectionInfo.toOption.getD false) },
      cfg.sectionInfo)

/-- `_GardRecordIdSetup`.  Whatever the check of the version changes is flushed
as a whole. -/
def gardRecordIdSetup (s : State) : State × Option Errl :=
  if s.iv_platDeconfigGard.isSome then (s, none)
  else
    match getGardSectionInfo cfg s with
    | (s, .error err) => (s, some err)
    | (s, .ok false) => (s, none)
    | (s, .ok true) =>
      let binary := checkVersion s.memory
      ({ s with
          memory := binary
          pnor := if s.memory.iv_version = CURRENT_GARD_VERSION_LAYOUT then s.pnor else binary
          iv_platDeconfigGard := some
            ⟨nextGardRecordId binary.iv_gardRecords, binary.iv_gardRecords.length,
              CURRENT_GARD_VERSION_LAYOUT⟩ }, none)

/-- The scan of `platCreateGardRecord` from a place on: `l_pRecord` and
`l_duplicate`. -/
def scan (targetId : EntityPath) (errorType : GardErrorType) :
    List GardRecord → Nat → Option Nat → Option Nat × Bool
  | [], _, pRecord => (pRecord, false)
  | r :: records, i, pRecord =>
    if r.iv_recordId = EMPTY_GARD_RECORDID then
      scan targetId errorType records (i + 1) (pRecord <|> some i)
    else if r.iv_targetId = targetId ∧ isDupGardRecord cfg r.iv_errorType errorType = true then
      (some i, true)
    else scan targetId errorType records (i + 1) pRecord

/-- What becomes of the record that a new one duplicates: whether it is
overwritten. -/
def overwrites (existing incoming : GardErrorType) : Bool :=
  if cfg.spBaseServicesEnabled then existing = .GARD_User_Manual
  else
    match existing with
    | .GARD_User_Manual => true
    | .GARD_Reconfig => incoming = .GARD_Sticky_deconfig
    | _ => false

/-- `HWAS_90_PERCENT_OF`, on 32 bits. -/
def HWAS_90_PERCENT_OF (num : Nat) : Nat := num * 9 % 2 ^ 32 / 10

def platCreateGardRecord (s : State) (target : Target) (errlEid : UInt32)
    (errorType : GardErrorType) : State × Option Errl :=
  if !target.present then (s, none)
  else if !target.deconfigGardable then
    (s, some ⟨.RC_TARGET_NOT_GARDABLE, (target.huid, errlEid), (0, 1)⟩)
  else if cfg.manufacturingDisabled then (s, none)
  else if cfg.predictiveDisabled ∧ errorType = .GARD_Predictive then (s, none)
  else
    match gardRecordIdSetup cfg s with
    | (s, some err) => (s, some err)
    | (s, none) =>
      match s.iv_platDeconfigGard with
      | none => (s, none)
      | some hb =>
        match scan cfg target.physPath errorType s.memory.iv_gardRecords 0 none with
        | (some i, true) =>
          match s.memory.iv_gardRecords[i]? with
          | none => (s, none)
          | some r =>
            if overwrites cfg r.iv_errorType errorType then
              (s.writeRecord i { r with iv_errlogEid := errlEid, iv_errorType := errorType }, none)
            else (s, none)
        | (none, _) =>
          (s, some ⟨.RC_GARD_REPOSITORY_FULL, (target.huid, errlEid),
            (hb.iv_nextGardRecordId, hb.iv_maxGardRecords.toUInt32)⟩)
        | (some i, false) =>
          let nearlyFull :=
            hb.iv_nextGardRecordId.toNat ≥ HWAS_90_PERCENT_OF hb.iv_maxGardRecords
          if nearlyFull ∧ ¬hb.iv_nextGardRecordId.toNat < hb.iv_maxGardRecords then
            (s, some ⟨.RC_GARD_REPOSITORY_FULL, (target.huid, errlEid),
              (hb.iv_nextGardRecordId, hb.iv_maxGardRecords.toUInt32)⟩)
          else
            -- the predictive log is committed once, and the creation goes on
            let s := { s with firstPredictiveError := s.firstPredictiveError && !nearlyFull }
            if hb.iv_GardVersion ≠ CURRENT_GARD_VERSION_LAYOUT then (s, none)
            else
              ({ s.writeRecord i ⟨hb.iv_nextGardRecordId, target.physPath, errlEid, errorType⟩ with
                iv_platDeconfigGard := some
                  { hb with iv_nextGardRecordId := hb.iv_nextGardRecordId + 1 } }, none)

/-- Whether the loop of `platClearGardRecords` clears a record. -/
def clears (target : Option Target) (clearOnlyDeconfig : Bool) (r : GardRecord) : Bool :=
  let onlyClearDeconfig := !cfg.spBaseServicesEnabled && clearOnlyDeconfig
  r.iv_recordId ≠ EMPTY_GARD_RECORDID
    && (match target with
      | none => true
      | some target => r.iv_targetId = target.physPath)
    && !(onlyClearDeconfig && !isDeconfigGard r.iv_errorType)

/-- The loop of `platClearGardRecords` from a place on.  On an FSP system it
stops at the first record of a target. -/
def clearLoop (target : Option Target) (clearOnlyDeconfig : Bool) :
    List GardRecord → Nat → State → State
  | [], _, s => s
  | r :: records, i, s =>
    if clears cfg target clearOnlyDeconfig r then
      let s := s.writeRecord i { r with iv_recordId := EMPTY_GARD_RECORDID }
      if target.isSome && cfg.spBaseServicesEnabled then s
      else clearLoop target clearOnlyDeconfig records (i + 1) s
    else clearLoop target clearOnlyDeconfig records (i + 1) s

attribute [grind =] clearLoop

def platClearGardRecords (s : State) (target : Option Target) (clearOnlyDeconfig : Bool) :
    State × Option Errl :=
  match gardRecordIdSetup cfg s with
  | (s, some err) => (s, some err)
  | (s, none) =>
    match s.iv_platDeconfigGard with
    | none => (s, none)
    | some hb =>
      let s := clearLoop cfg target clearOnlyDeconfig s.memory.iv_gardRecords 0 s
      if target.isSome then (s, none)
      else
        -- the version of the header is reset, and its page flushed
        ({ s with
            memory := { s.memory with iv_version := CURRENT_GARD_VERSION_LAYOUT }
            pnor := { s.pnor with iv_version := CURRENT_GARD_VERSION_LAYOUT }
            iv_platDeconfigGard := some
              { hb with iv_GardVersion := CURRENT_GARD_VERSION_LAYOUT } }, none)

/-- The calls of the repository, and a boot. -/
inductive Call
  | create (target : Target) (errlEid : UInt32) (errorType : GardErrorType)
  | clear (target : Option Target) (clearOnlyDeconfig : Bool)
  | boot

/-- The state behind a call. -/
def step (s : State) : Call → State
  | .create target errlEid errorType => (platCreateGardRecord cfg s target errlEid errorType).1
  | .clear target clearOnlyDeconfig => (platClearGardRecords cfg s target clearOnlyDeconfig).1
  | .boot => .boot s.pnor

/-! ## Duplicates and the scan -/

/-- A record that is not empty. -/
def GardRecord.Used (r : GardRecord) : Prop := r.iv_recordId ≠ EMPTY_GARD_RECORDID

section
variable {cfg : Config}

/-- The call remembers its answer and changes nothing else, and an error is
that of the PNOR. -/
theorem getGardSectionInfo_cases (s : State) : ∃ info,
    (getGardSectionInfo cfg s).1 = { s with g_GardSectionInfo := info } ∧
      ∀ err, (getGardSectionInfo cfg s).2 = .error err → cfg.sectionInfo = .error err := by
  unfold getGardSectionInfo
  split
  · exact ⟨s.g_GardSectionInfo, rfl, fun err h => by cases h⟩
  · exact ⟨_, rfl, fun err h => h⟩

theorem isDupGardRecord_comm (a b : GardErrorType) :
    isDupGardRecord cfg a b = isDupGardRecord cfg b a := by
  unfold isDupGardRecord
  rw [Bool.xor_comm]

theorem isDupGardRecord_congr {a b : GardErrorType} (h : isDupGardRecord cfg a b = true)
    (c : GardErrorType) : isDupGardRecord cfg b c = isDupGardRecord cfg a c := by
  unfold isDupGardRecord at h ⊢
  revert h
  cases cfg.spBaseServicesEnabled <;> cases isDeconfigGard a <;> cases isDeconfigGard b <;> simp

theorem isDupGardRecord_eq_false {a b : GardErrorType} :
    isDupGardRecord cfg a b = false
      ↔ cfg.spBaseServicesEnabled = false ∧ isDeconfigGard a ≠ isDeconfigGard b := by
  unfold isDupGardRecord
  cases cfg.spBaseServicesEnabled <;> cases isDeconfigGard a <;> cases isDeconfigGard b <;> simp

variable {r : GardRecord} {records : List GardRecord} {i j : Nat}

theorem getElem?_shift {r' : GardRecord} (hle : i + 1 ≤ j) (hr' : records[j - (i + 1)]? = some r') :
    (r :: records)[j - i]? = some r' := by
  rw [show j - i = j - (i + 1) + 1 by omega, List.getElem?_cons_succ]
  exact hr'

theorem scan_duplicate {targetId : EntityPath} {errorType : GardErrorType} {p : Option Nat}
    (h : scan cfg targetId errorType records i p = (some j, true)) :
    i ≤ j ∧ ∃ r, records[j - i]? = some r ∧ r.Used ∧ r.iv_targetId = targetId ∧
      isDupGardRecord cfg r.iv_errorType errorType = true := by
  induction records generalizing i p with
  | nil => cases h
  | cons r records ih =>
    unfold scan at h
    split at h
    · obtain ⟨hle, r', hr', hrest⟩ := ih h
      exact ⟨by omega, r', getElem?_shift hle hr', hrest⟩
    · rename_i hused
      split at h
      · rename_i hdup
        cases h
        refine ⟨Nat.le_refl _, r, ?_, hused, hdup⟩
        rw [Nat.sub_self, List.getElem?_cons_zero]
      · obtain ⟨hle, r', hr', hrest⟩ := ih h
        exact ⟨by omega, r', getElem?_shift hle hr', hrest⟩

theorem scan_free {targetId : EntityPath} {errorType : GardErrorType} {p : Option Nat}
    (h : scan cfg targetId errorType records i p = (some j, false)) :
    (∀ r ∈ records, r.Used → r.iv_targetId = targetId →
        isDupGardRecord cfg r.iv_errorType errorType = false) ∧
      (p = some j ∨ i ≤ j ∧ ∃ r, records[j - i]? = some r ∧ ¬r.Used) := by
  induction records generalizing i p with
  | nil =>
    cases h
    exact ⟨fun r hr => absurd hr List.not_mem_nil, Or.inl rfl⟩
  | cons r records ih =>
    unfold scan at h
    split at h
    · rename_i hempty
      obtain ⟨hnone, hplace⟩ := ih h
      refine ⟨fun r' hr' hused => ?_, ?_⟩
      · rcases List.mem_cons.mp hr' with rfl | hr'
        · exact absurd hempty hused
        · exact hnone r' hr' hused
      · rcases hplace with hp | ⟨hle, r', hr', hfree⟩
        · cases p with
          | none =>
            cases hp
            exact Or.inr ⟨Nat.le_refl _, r, by rw [Nat.sub_self, List.getElem?_cons_zero],
              fun hused => hused hempty⟩
          | some k => exact Or.inl hp
        · exact Or.inr ⟨by omega, r', getElem?_shift hle hr', hfree⟩
    · split at h
      · cases h
      · rename_i hdup
        obtain ⟨hnone, hplace⟩ := ih h
        refine ⟨fun r' hr' hused htarget => ?_, ?_⟩
        · rcases List.mem_cons.mp hr' with rfl | hr'
          · exact Bool.eq_false_iff.mpr fun htrue => hdup ⟨htarget, htrue⟩
          · exact hnone r' hr' hused htarget
        · rcases hplace with hp | ⟨hle, r', hr', hfree⟩
          · exact Or.inl hp
          · exact Or.inr ⟨by omega, r', getElem?_shift hle hr', hfree⟩

/-! ## Records that get along with each other -/

/-- Two records may stand in one repository: their ids differ, and they are no
duplicates if they name the same target. -/
def Apart (cfg : Config) (r r' : GardRecord) : Prop :=
  r.Used → r'.Used → r.iv_recordId ≠ r'.iv_recordId ∧
    (r.iv_targetId = r'.iv_targetId →
      isDupGardRecord cfg r.iv_errorType r'.iv_errorType = false)

theorem Apart.symm {r' : GardRecord} (h : Apart cfg r r') : Apart cfg r' r := by
  intro hused' hused
  obtain ⟨hid, htarget⟩ := h hused hused'
  refine ⟨hid.symm, fun heq => ?_⟩
  rw [isDupGardRecord_comm]
  exact htarget heq.symm

/-- Any two records of a repository may stand in it. -/
def AllApart (cfg : Config) (records : List GardRecord) : Prop :=
  ∀ (i j : Nat) (r r' : GardRecord), i ≠ j → records[i]? = some r → records[j]? = some r' →
    Apart cfg r r'

theorem AllApart.set (h : AllApart cfg records)
    (hr : ∀ j r', j ≠ i → records[j]? = some r' → Apart cfg r r') :
    AllApart cfg (records.set i r) := by
  have hat : ∀ {k x}, (records.set i r)[k]? = some x →
      k = i ∧ x = r ∨ k ≠ i ∧ records[k]? = some x := by
    intro k x hk
    rw [List.getElem?_set] at hk
    split at hk
    · rename_i hik
      split at hk
      · cases hk
        exact Or.inl ⟨hik.symm, rfl⟩
      · cases hk
    · rename_i hik
      exact Or.inr ⟨fun heq => hik heq.symm, hk⟩
  intro j k x y hne hx hy
  rcases hat hx with ⟨hji, hxr⟩ | ⟨hji, hxr⟩
  · rcases hat hy with ⟨hki, hyr⟩ | ⟨hki, hyr⟩
    · exact absurd (hji.trans hki.symm) hne
    · rw [hxr]
      exact hr k y hki hyr
  · rcases hat hy with ⟨hki, hyr⟩ | ⟨hki, hyr⟩
    · rw [hyr]
      exact (hr j x hji hxr).symm
    · exact h j k x y hne hxr hyr

/-- A function that keeps ids and types, and that keeps different targets
different, keeps all records apart. -/
theorem AllApart.map (h : AllApart cfg records) {f : GardRecord → GardRecord} (hid : ∀ r ∈ records,
    (f r).Used → r.Used ∧ (f r).iv_recordId = r.iv_recordId ∧ (f r).iv_errorType = r.iv_errorType)
    (htarget : ∀ r ∈ records, ∀ r' ∈ records, (f r).Used → (f r').Used → (f r).iv_targetId = (f
      r').iv_targetId → r.iv_targetId = r'.iv_targetId) :
    AllApart cfg (records.map f) := by
  intro i j x y hne hx hy hused hused'
  rw [List.getElem?_map, Option.map_eq_some_iff] at hx hy
  obtain ⟨r, hr, rfl⟩ := hx
  obtain ⟨r', hr', rfl⟩ := hy
  have hmem := List.mem_of_getElem? hr
  have hmem' := List.mem_of_getElem? hr'
  obtain ⟨hu, hi, ht⟩ := hid r hmem hused
  obtain ⟨hu', hi', ht'⟩ := hid r' hmem' hused'
  obtain ⟨hids, htargets⟩ := h i j r r' hne hr hr' hu hu'
  rw [hi, hi', ht, ht']
  exact ⟨hids, fun heq => htargets (htarget r hmem r' hmem' hused hused' heq)⟩

end

end Hostboot.Hwas.Gard
