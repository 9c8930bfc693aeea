import Mathlib
import Hostboot.Errl.SlotStore

/-!
# Error log ids

`getUniqueErrId` gives every error log of a boot its id.  Before PNOR is up the
ids come from the upper range of numbers, `0x800000` to `0xFFFFFF`.
`setupPnorInfo` looks for the largest id of the logs in PNOR, moves the counter
behind it, and then sets the flag that makes `getUniqueErrId` use the lower
range.  The calls run at the same time without a lock.

A step is one access to `iv_currLogId` or to `iv_pnorReadyForErrorLogs`: a call
reads the counter, reads the flag, and tries to swap the counter; the setup reads
the counter, tries to swap it, and sets the flag.  A call whose swap fails
starts again.  A thread that has got an id may call again.

A call between the two steps of the switch puts the new number into the old
range, where its id may be taken.  And the largest id is looked for over the ids
of all nodes, so that a log of a higher node hides a larger number of this one.

`early` and `late` are ghosts: the ids that were returned before and after the
swap of the setup.
-/

namespace Hostboot.Errl

open Hostboot.Lib ErrlManager List
open Function (update update_of_ne update_self)

/-! ## The model -/

def ERRLOG_PLID_INITIAL : Nat := 0x00800000

/-- `l_eid_id` of the constructor: the group, and four more on an alternate
processor.  The word of the PIR tells the mode of the chip. -/
def eidId (wordIsZero : Bool) (topologyId : Nat) : Nat :=
  let groupId := if wordIsZero then (topologyId &&& 0b1110) >>> 1 else (topologyId &&& 0b1100) >>> 2
  let chipId := if wordIsZero then topologyId &&& 0b0001 else topologyId &&& 0b0011
  if chipId = 0 then groupId else groupId + 4

/-- A boot: the processor it runs on, the partition, and the BMC. -/
structure Boot (Log : Type) where
  wordIsZero : Bool
  topologyId : Nat
  env : Env Log
  bmc : Bmc
  slots : Nat → Slot

variable {Log : Type}

namespace Boot

/-- `iv_baseNodeId`. -/
def ivBaseNodeId (b : Boot Log) : Nat := ERRLOG_PLID_BASE + eidId b.wordIsZero b.topologyId * 2 ^ 24

/-- The manager until `setupPnorInfo` has run. -/
def manager (b : Boot Log) : ErrlManager := .init b.slots

/-- `l_maxId` behind the loop of `setupPnorInfo`. -/
def maxId (b : Boot Log) : Nat := (scanSlots b.env b.bmc b.manager).maxId

/-- The ids of the logs in PNOR. -/
def found (b : Boot Log) : List Nat :=
  ((List.range (setupStart b.env b.manager).ivMaxErrlInPnor).filter fun i =>
    !(b.slots i).isSlotEmpty).map fun i => (b.slots i).foundId

/-- The id behind an id, as `getUniqueErrId` computes it. -/
def nextLogId (b : Boot Log) (logId : Nat) (pnorReady : Bool) : Nat :=
  if !pnorReady then
    b.ivBaseNodeId ||| (((logId + 1) % 2 ^ 32 &&& ERRLOG_PLID_MASK) ||| ERRLOG_PLID_INITIAL)
  else b.ivBaseNodeId ||| ((logId + 1) % 2 ^ 32 &&& ERRLOG_PLID_POST_MAX)

/-- The id that `setupPnorInfo` moves the counter to. -/
def switchId (b : Boot Log) : Nat :=
  b.ivBaseNodeId ||| ((b.maxId + 1) % 2 ^ 32 &&& ERRLOG_PLID_POST_MAX)

end Boot

/-- Where a call of `getUniqueErrId` is. -/
inductive Call where
  | start
  | haveId (logId : Nat)
  | haveNext (logId nextLogId : Nat)
  deriving DecidableEq, Repr

/-- Where `setupPnorInfo` is. -/
inductive Setup where
  | start
  | haveId (logId : Nat)
  /-- The counter is moved and the flag is not set. -/
  | switched
  | done
  deriving DecidableEq, Repr

/-- The counter, the flag, the setup and the calls, by thread. -/
structure Ids where
  ivCurrLogId : Nat
  ivPnorReadyForErrorLogs : Bool
  setup : Setup
  calls : Nat → Call
  early : List Nat
  late : List Nat

/-- The constructor. -/
def Ids.init (b : Boot Log) : Ids where
  ivCurrLogId := b.ivBaseNodeId ||| ERRLOG_PLID_INITIAL
  ivPnorReadyForErrorLogs := false
  setup := .start
  calls := fun _ => .start
  early := []
  late := []

/-- The accesses to the counter and the flag. -/
inductive Access where
  | readId (t : Nat)
  | readReady (t : Nat)
  | swap (t : Nat)
  | setupReadId
  | setupSwap
  | setupReady
  deriving DecidableEq, Repr

/-- A call gets an id. -/
def Ids.return (s : Ids) (t nextLogId : Nat) : Ids :=
  let s := { s with ivCurrLogId := nextLogId, calls := update s.calls t .start }
  match s.setup with
  | .start | .haveId _ => { s with early := s.early ++ [nextLogId] }
  | .switched | .done => { s with late := s.late ++ [nextLogId] }

/-- One access. -/
def Ids.access (b : Boot Log) (s : Ids) : Access → Option Ids
  | .readId t =>
    match s.calls t with
    | .start => some { s with calls := update s.calls t (.haveId s.ivCurrLogId) }
    | _ => none
  | .readReady t =>
    match s.calls t with
    | .haveId logId =>
      let next := b.nextLogId logId s.ivPnorReadyForErrorLogs
      some { s with calls := update s.calls t (.haveNext logId next) }
    | _ => none
  | .swap t =>
    match s.calls t with
    | .haveNext logId nextLogId =>
      if s.ivCurrLogId = logId then some (s.return t nextLogId)
      else some { s with calls := update s.calls t .start }
    | _ => none
  | .setupReadId =>
    match s.setup with
    | .start => some { s with setup := .haveId s.ivCurrLogId }
    | _ => none
  | .setupSwap =>
    match s.setup with
    | .haveId logId =>
      if s.ivCurrLogId = logId then
        some { s with ivCurrLogId := b.switchId, setup := .switched }
      else some { s with setup := .start }
    | _ => none
  | .setupReady =>
    match s.setup with
    | .switched => some { s with ivPnorReadyForErrorLogs := true, setup := .done }
    | _ => none

/-- One access, as a relation. -/
def IdStep (b : Boot Log) (s : Ids) (a : Access) (s' : Ids) : Prop := s.access b a = some s'

/-! ## Numbers -/

theorem eidId_lt (wordIsZero : Bool) (topologyId : Nat) : eidId wordIsZero topologyId < 16 := by
  have hgroup : (topologyId &&& 0b1110) >>> 1 ≤ 7 := by
    have hand : topologyId &&& 0b1110 ≤ 0b1110 := Nat.and_le_right
    rw [Nat.shiftRight_eq_div_pow]
    omega
  have hnode : (topologyId &&& 0b1100) >>> 2 ≤ 7 := by
    have hand : topologyId &&& 0b1100 ≤ 0b1100 := Nat.and_le_right
    rw [Nat.shiftRight_eq_div_pow]
    omega
  unfold eidId
  cases wordIsZero with
  | false =>
    simp only [Bool.false_eq_true, if_false]
    split <;> omega
  | true =>
    simp only [if_true]
    split <;> omega

theorem ivBaseNodeId_eq (b : Boot Log) :
    b.ivBaseNodeId = 2 ^ 24 * (0x90 + eidId b.wordIsZero b.topologyId) := by
  unfold Boot.ivBaseNodeId ERRLOG_PLID_BASE
  omega

theorem base_or (b : Boot Log) {n : Nat} (hn : n < 2 ^ 24) :
    b.ivBaseNodeId ||| n = b.ivBaseNodeId + n := by
  rw [ivBaseNodeId_eq, Nat.two_pow_add_eq_or_of_lt hn]

theorem and_POST_MAX (n : Nat) : n &&& ERRLOG_PLID_POST_MAX = n % 2 ^ 23 :=
  Nat.and_two_pow_sub_one_eq_mod n 23

theorem and_PLID_MASK (n : Nat) : n &&& ERRLOG_PLID_MASK = n % 2 ^ 24 :=
  Nat.and_two_pow_sub_one_eq_mod n 24

theorem nextLogId_early (b : Boot Log) {k : Nat} (hk : k + 1 < 2 ^ 23) :
    b.nextLogId (b.ivBaseNodeId + (2 ^ 23 + k)) false = b.ivBaseNodeId + (2 ^ 23 + (k + 1)) := by
  have hnode := eidId_lt b.wordIsZero b.topologyId
  have hbase := ivBaseNodeId_eq b
  have hmask : (b.ivBaseNodeId + (2 ^ 23 + k) + 1) % 2 ^ 32 &&& ERRLOG_PLID_MASK =
      2 ^ 23 * 1 + (k + 1) := by
    rw [and_PLID_MASK]
    omega
  have hinitial : ERRLOG_PLID_INITIAL = 2 ^ 23 * 1 := rfl
  have hor : (2 ^ 23 * 1 + (k + 1)) ||| (2 ^ 23 * 1) = 2 ^ 23 * 1 + (k + 1) := by
    rw [Nat.two_pow_add_eq_or_of_lt hk, Nat.or_assoc, Nat.or_comm (k + 1), ← Nat.or_assoc,
      Nat.or_self]
  unfold Boot.nextLogId
  rw [Bool.not_false, if_pos rfl, hmask, hinitial, hor, base_or b (by omega), Nat.mul_one]

theorem nextLogId_late (b : Boot Log) (n : Nat) :
    b.nextLogId (b.ivBaseNodeId + n) true = b.ivBaseNodeId + (n + 1) % 2 ^ 23 := by
  have hnode := eidId_lt b.wordIsZero b.topologyId
  have hbase := ivBaseNodeId_eq b
  have hmask : (b.ivBaseNodeId + n + 1) % 2 ^ 32 &&& ERRLOG_PLID_POST_MAX = (n + 1) % 2 ^ 23 := by
    rw [and_POST_MAX]
    omega
  unfold Boot.nextLogId
  rw [Bool.not_true, if_neg Bool.false_ne_true, hmask, base_or b (by omega)]

/-- The number that the counter is moved to. -/
def startNumber (b : Boot Log) : Nat := (b.maxId + 1) % 2 ^ 23

theorem switchId_eq (b : Boot Log) : b.switchId = b.ivBaseNodeId + startNumber b := by
  have hmod : (b.maxId + 1) % 2 ^ 32 &&& ERRLOG_PLID_POST_MAX = startNumber b := by
    rw [and_POST_MAX]
    unfold startNumber
    omega
  unfold Boot.switchId
  rw [hmod]
  refine base_or b ?_
  unfold startNumber
  omega

/-- An id of the lower range is one that the loop of `setupPnorInfo` looks at. -/
theorem isPostId_base_add (b : Boot Log) {n : Nat} (hn : n < 2 ^ 23) :
    isPostId ERRLOG_PLID_BASE (b.ivBaseNodeId + n) = true := by
  have hnode := eidId_lt b.wordIsZero b.topologyId
  have hbase := ivBaseNodeId_eq b
  have hsplit : b.ivBaseNodeId + n =
      2 ^ 28 * 9 + (2 ^ 24 * eidId b.wordIsZero b.topologyId + n) := by
    omega
  have hfirst : b.ivBaseNodeId + n &&& FIRST_BYTE_ERRLOG = ERRLOG_PLID_BASE := by
    have hmask : FIRST_BYTE_ERRLOG = 2 ^ 28 * 15 + 0 := by decide
    have hnine : (9 : Nat) &&& 15 = 9 := by decide
    rw [hsplit, hmask, and_two_pow_mul_add _ _ (by omega) (by decide), Nat.and_zero, hnine]
    decide
  have hnumber : b.ivBaseNodeId + n &&& ERRLOG_PLID_MASK ≤ ERRLOG_PLID_POST_MAX := by
    rw [and_PLID_MASK]
    unfold ERRLOG_PLID_POST_MAX
    omega
  unfold isPostId
  rw [hfirst, decide_eq_true hnumber, beq_self_eq_true, Bool.and_self]

/-! ## The largest id in PNOR -/

/-- The largest id of Hostboot among the first `n` slots, zero when there is
none. -/
structure LargestId (slots : Nat → Slot) (n maxId : Nat) : Prop where
  attained : maxId = 0 ∨ ∃ i < n, (slots i).isSlotEmpty = false ∧ (slots i).foundId = maxId ∧
    isPostId ERRLOG_PLID_BASE maxId = true
  largest : ∀ i < n, (slots i).isSlotEmpty = false →
    isPostId ERRLOG_PLID_BASE (slots i).foundId = true → (slots i).foundId ≤ maxId

theorem scanSlot_maxId (env : Env Log) (bmc : Bmc) (r : Scan) (i : Nat) :
    (scanSlot env bmc r i).maxId =
      if (r.manager.slots i).isSlotEmpty then r.maxId
      else if isPostId ERRLOG_PLID_BASE (r.manager.slots i).foundId &&
          decide ((r.manager.slots i).foundId > r.maxId) then (r.manager.slots i).foundId
      else r.maxId := by
  have hack : ∀ (r : Scan) (slot : Slot), (ackUnacked env bmc r i slot).maxId = r.maxId := by
    intro r slot
    unfold ackUnacked
    split_ifs <;> rfl
  have hhbrt : ∀ (r : Scan) (id : Nat), (noteHbrtEid r id).maxId = r.maxId := by
    intro r id
    unfold noteHbrtEid
    split <;> rfl
  unfold scanSlot
  dsimp only
  split
  · rfl
  · rw [hack, hhbrt]
    unfold noteMaxId
    split <;> rfl

theorem LargestId.succ {slots : Nat → Slot} {n maxId : Nat} (h : LargestId slots n maxId) :
    LargestId slots (n + 1)
      (if (slots n).isSlotEmpty then maxId
      else if isPostId ERRLOG_PLID_BASE (slots n).foundId &&
          decide ((slots n).foundId > maxId) then (slots n).foundId
      else maxId) := by
  have hattained : maxId = 0 ∨ ∃ i < n + 1, (slots i).isSlotEmpty = false ∧
      (slots i).foundId = maxId ∧ isPostId ERRLOG_PLID_BASE maxId = true := by
    rcases h.attained with hzero | ⟨i, hi, hi'⟩
    · exact .inl hzero
    · exact .inr ⟨i, by omega, hi'⟩
  split
  · rename_i hempty
    refine ⟨hattained, fun i hi hfull hpost => ?_⟩
    by_cases hlast : i = n
    · subst hlast
      rw [hempty] at hfull
      cases hfull
    · exact h.largest i (by omega) hfull hpost
  rename_i hfull
  simp only [Bool.not_eq_true] at hfull
  split
  · rename_i hlarger
    simp only [Bool.and_eq_true, decide_eq_true_eq] at hlarger
    refine ⟨.inr ⟨n, by omega, hfull, rfl, hlarger.1⟩, fun i hi hfull hpost => ?_⟩
    by_cases hlast : i = n
    · subst hlast
      exact Nat.le_refl _
    · have hle := h.largest i (by omega) hfull hpost
      omega
  · rename_i hsmaller
    simp only [Bool.and_eq_true, decide_eq_true_eq, not_and] at hsmaller
    refine ⟨hattained, fun i hi hfull hpost => ?_⟩
    by_cases hlast : i = n
    · subst hlast
      have hle := hsmaller hpost
      omega
    · exact h.largest i (by omega) hfull hpost

theorem ScanInv.largestId {env : Env Log} {bmc : Bmc} {before : Nat → Slot} {r : Scan}
    (h : ScanInv env bmc before 0 r) (hzero : r.maxId = 0) {n : Nat}
    (hn : n ≤ r.manager.ivMaxErrlInPnor) :
    LargestId before n ((List.range n).foldl (ErrlManager.scanSlot env bmc) r).maxId := by
  induction n with
  | zero => exact ⟨.inl hzero, fun i hi => absurd hi (Nat.not_lt_zero i)⟩
  | succ n ih =>
    have hslot := (h.foldl (n := n) (by omega)).1.ahead n (Nat.le_refl n)
    have hnext := (ih (by omega)).succ
    rw [range_succ, foldl_append, foldl_cons, foldl_nil, scanSlot_maxId, hslot]
    exact hnext

theorem maxId_largest (b : Boot Log) :
    LargestId b.slots (setupStart b.env b.manager).ivMaxErrlInPnor b.maxId :=
  ((inv_init b.env b.slots).scanStart b.bmc).largestId rfl (Nat.le_refl _)

theorem mem_found {b : Boot Log} {id : Nat} :
    id ∈ b.found ↔ ∃ i < (setupStart b.env b.manager).ivMaxErrlInPnor,
      (b.slots i).isSlotEmpty = false ∧ (b.slots i).foundId = id := by
  unfold Boot.found
  simp only [mem_map, mem_filter, mem_range, Bool.not_eq_true', and_assoc]

/-! ## The invariant -/

/-- The counter after `k` ids of the upper range. -/
def earlyId (b : Boot Log) (k : Nat) : Nat := b.ivBaseNodeId + (2 ^ 23 + k)

/-- The counter after `k` ids of the lower range. -/
def lateId (b : Boot Log) (k : Nat) : Nat := b.ivBaseNodeId + (startNumber b + k) % 2 ^ 23

theorem earlyId_ne_lateId (b : Boot Log) (k j : Nat) : earlyId b k ≠ lateId b j := by
  unfold earlyId lateId
  omega

theorem nextLogId_earlyId (b : Boot Log) {k : Nat} (hk : k + 1 < 2 ^ 23) :
    b.nextLogId (earlyId b k) false = earlyId b (k + 1) := nextLogId_early b hk

theorem nextLogId_lateId (b : Boot Log) (k : Nat) :
    b.nextLogId (lateId b k) true = lateId b (k + 1) := by
  unfold lateId
  rw [nextLogId_late, Nat.mod_add_mod, Nat.add_assoc]

theorem switchId_eq_lateId (b : Boot Log) : b.switchId = lateId b 0 := by
  have hlt : startNumber b < 2 ^ 23 := Nat.mod_lt _ (Nat.two_pow_pos 23)
  rw [switchId_eq, lateId, Nat.add_zero, Nat.mod_eq_of_lt hlt]

/-- Whether the counter is still to be moved. -/
def Setup.isBefore : Setup → Bool
  | .start | .haveId _ => true
  | .switched | .done => false

/-- What a call has read: an id of the upper range, which the setup makes stale,
or one of the lower range, which it read when the flag was set. -/
def CallOk (b : Boot Log) (setup : Setup) : Call → Prop
  | .start => True
  | .haveId logId => (∃ k, logId = earlyId b k) ∨ (setup = .done ∧ ∃ k, logId = lateId b k)
  | .haveNext logId nextLogId =>
    ((∃ k, logId = earlyId b k) ∧
      (setup.isBefore = true → nextLogId = b.nextLogId logId false)) ∨
    (setup = .done ∧ (∃ k, logId = lateId b k) ∧ nextLogId = b.nextLogId logId true)

/-- The ids that were returned, the counter and the flag in each phase, and
what the calls have read. -/
structure IdsOk (b : Boot Log) (s : Ids) : Prop where
  early : s.early = (List.range s.early.length).map fun k => earlyId b (k + 1)
  late : s.late = (List.range s.late.length).map fun k => lateId b (k + 1)
  before : s.setup.isBefore = true →
    s.ivPnorReadyForErrorLogs = false ∧ s.ivCurrLogId = earlyId b s.early.length ∧ s.late = []
  switched : s.setup = .switched →
    s.ivPnorReadyForErrorLogs = false ∧ s.ivCurrLogId = lateId b 0 ∧ s.late = []
  done : s.setup = .done →
    s.ivPnorReadyForErrorLogs = true ∧ s.ivCurrLogId = lateId b s.late.length
  calls : ∀ t, CallOk b s.setup (s.calls t)

theorem idsOk_init (b : Boot Log) : IdsOk b (.init b) where
  early := rfl
  late := rfl
  before := by
    intro _
    refine ⟨rfl, ?_, rfl⟩
    exact base_or b (by decide)
  switched := fun h => by cases h
  done := fun h => by cases h
  calls := fun _ => trivial

/-- The condition on an access: no call reads the counter between the two steps
of the switch. -/
def Access.Fits (s : Ids) : Access → Prop
  | .readId _ => s.setup ≠ .switched
  | _ => True

instance (s : Ids) (a : Access) : Decidable (a.Fits s) :=
  match a with
  | .readId _ => inferInstanceAs (Decidable (s.setup ≠ .switched))
  | .readReady _ | .swap _ | .setupReadId | .setupSwap | .setupReady =>
    inferInstanceAs (Decidable True)

/-- An access that meets the condition. -/
def FittingAccess (b : Boot Log) (s : Ids) (a : Access) (s' : Ids) : Prop :=
  IdStep b s a s' ∧ a.Fits s

theorem map_range_snoc {f : Nat → Nat} {l : List Nat} (h : l = (List.range l.length).map f) :
    l ++ [f l.length] = (List.range (l ++ [f l.length]).length).map f := by
  rw [length_append, length_singleton, range_succ, map_append, ← h]
  rfl

variable {b : Boot Log} {s s' : Ids}

theorem IdsOk.setCall (h : IdsOk b s) {t : Nat} {call : Call} (hcall : CallOk b s.setup call) :
    IdsOk b { s with calls := update s.calls t call } where
  early := h.early
  late := h.late
  before := h.before
  switched := h.switched
  done := h.done
  calls := by
    intro t'
    by_cases ht : t' = t
    · subst ht
      show CallOk b s.setup (update s.calls t' call t')
      rw [update_self]
      exact hcall
    · show CallOk b s.setup (update s.calls t call t')
      rw [update_of_ne ht]
      exact h.calls t'

theorem IdsOk.readId (h : IdsOk b s) (hfits : s.setup ≠ .switched) :
    CallOk b s.setup (.haveId s.ivCurrLogId) := by
  cases hsetup : s.setup with
  | start => exact .inl ⟨_, (h.before (by rw [hsetup]; rfl)).2.1⟩
  | haveId logId => exact .inl ⟨_, (h.before (by rw [hsetup]; rfl)).2.1⟩
  | switched => exact absurd hsetup hfits
  | done => exact .inr ⟨rfl, _, (h.done hsetup).2⟩

theorem IdsOk.readReady (h : IdsOk b s) {logId : Nat} (hcall : CallOk b s.setup (.haveId logId)) :
    CallOk b s.setup (.haveNext logId (b.nextLogId logId s.ivPnorReadyForErrorLogs)) := by
  rcases hcall with hearly | ⟨hdone, hlate⟩
  · refine .inl ⟨hearly, fun hbefore => ?_⟩
    rw [(h.before hbefore).1]
  · refine .inr ⟨hdone, hlate, ?_⟩
    rw [(h.done hdone).1]

theorem IdsOk.swap (h : IdsOk b s) {t nextLogId : Nat} (hbound : s.early.length + 1 < 2 ^ 23)
    (hcall : CallOk b s.setup (.haveNext s.ivCurrLogId nextLogId)) :
    IdsOk b (s.return t nextLogId) := by
  have hidle : IdsOk b { s with calls := update s.calls t .start } := h.setCall trivial
  cases hbefore : s.setup.isBefore with
  | true =>
    obtain ⟨hready, hcurr, hlate⟩ := h.before hbefore
    have hnext : nextLogId = earlyId b (s.early.length + 1) := by
      rcases hcall with ⟨-, hnext⟩ | ⟨hdone, -⟩
      · rw [hnext hbefore, hcurr, nextLogId_earlyId b hbound]
      · rw [hdone] at hbefore
        cases hbefore
    have hreturn : s.return t nextLogId =
        { s with ivCurrLogId := nextLogId, calls := update s.calls t .start,
                 early := s.early ++ [nextLogId] } := by
      unfold Ids.return
      cases hsetup : s.setup <;> rw [hsetup] at hbefore <;> first | rfl | cases hbefore
    rw [hreturn, hnext]
    have hsnoc := map_range_snoc h.early
    refine { early := hsnoc, late := h.late, before := fun _ => ⟨hready, ?_, hlate⟩,
             switched := fun hsw => ?_, done := fun hd => ?_, calls := hidle.calls }
    · show earlyId b _ = earlyId b (s.early ++ [_]).length
      rw [length_append, length_singleton]
    · have hsw' : s.setup = .switched := hsw
      rw [hsw'] at hbefore
      cases hbefore
    · have hd' : s.setup = .done := hd
      rw [hd'] at hbefore
      cases hbefore
  | false =>
    have hdone : s.setup = .done := by
      rcases hcall with ⟨⟨k, hk⟩, -⟩ | ⟨hdone, -⟩
      · cases hsetup : s.setup with
        | start =>
          rw [hsetup] at hbefore
          cases hbefore
        | haveId logId =>
          rw [hsetup] at hbefore
          cases hbefore
        | switched =>
          rw [(h.switched hsetup).2.1] at hk
          exact absurd hk.symm (earlyId_ne_lateId b k 0)
        | done => rfl
      · exact hdone
    obtain ⟨hready, hcurr⟩ := h.done hdone
    have hnext : nextLogId = lateId b (s.late.length + 1) := by
      rcases hcall with ⟨⟨k, hk⟩, -⟩ | ⟨-, -, hnext⟩
      · rw [hcurr] at hk
        exact absurd hk.symm (earlyId_ne_lateId b k _)
      · rw [hnext, hcurr, nextLogId_lateId]
    have hreturn : s.return t nextLogId =
        { s with ivCurrLogId := nextLogId, calls := update s.calls t .start,
                 late := s.late ++ [nextLogId] } := by
      unfold Ids.return
      rw [hdone]
    rw [hreturn, hnext]
    have hsnoc := map_range_snoc h.late
    refine { early := h.early, late := hsnoc, before := fun hb => ?_,
             switched := fun hsw => ?_, done := fun _ => ⟨hready, ?_⟩, calls := hidle.calls }
    · have hb' : s.setup.isBefore = true := hb
      rw [hbefore] at hb'
      cases hb'
    · have hsw' : s.setup = .switched := hsw
      rw [hdone] at hsw'
      cases hsw'
    · show lateId b _ = lateId b (s.late ++ [_]).length
      rw [length_append, length_singleton]

/-- While the setup is not done, what a call has read does not depend on the setup. -/
theorem CallOk.setSetup {setup setup' : Setup} {call : Call} (h : CallOk b setup call)
    (hnot : setup ≠ .done) (hbefore : setup'.isBefore = true → setup.isBefore = true) :
    CallOk b setup' call := by
  cases call with
  | start => trivial
  | haveId logId => exact .inl (h.resolve_right fun hlate => hnot hlate.1)
  | haveNext logId nextLogId =>
    have hearly := h.resolve_right fun hlate => hnot hlate.1
    exact .inl ⟨hearly.1, fun hb => hearly.2 (hbefore hb)⟩

theorem IdsOk.setupSwap (h : IdsOk b s) (hbefore : s.setup.isBefore = true) :
    IdsOk b { s with ivCurrLogId := b.switchId, setup := .switched } where
  early := h.early
  late := h.late
  before := fun hb => by cases hb
  switched := fun _ => ⟨(h.before hbefore).1, switchId_eq_lateId b, (h.before hbefore).2.2⟩
  done := fun hd => by cases hd
  calls := by
    intro t
    refine (h.calls t).setSetup (fun hdone => ?_) fun hb => by cases hb
    rw [hdone] at hbefore
    cases hbefore

theorem IdsOk.setupReady (h : IdsOk b s) (hswitched : s.setup = .switched) :
    IdsOk b { s with ivPnorReadyForErrorLogs := true, setup := .done } where
  early := h.early
  late := h.late
  before := fun hb => by cases hb
  switched := fun hsw => by cases hsw
  done := by
    intro _
    obtain ⟨-, hcurr, hlate⟩ := h.switched hswitched
    refine ⟨rfl, ?_⟩
    show s.ivCurrLogId = lateId b s.late.length
    rw [hlate, hcurr]
    rfl
  calls := by
    intro t
    refine (h.calls t).setSetup (fun hdone => ?_) fun hb => by cases hb
    rw [hdone] at hswitched
    cases hswitched

theorem IdsOk.setSetup (h : IdsOk b s) {setup : Setup} (hbefore : s.setup.isBefore = true)
    (hbefore' : setup.isBefore = true) : IdsOk b { s with setup := setup } where
  early := h.early
  late := h.late
  before := fun _ => h.before hbefore
  switched := by
    intro hsw
    have hsw' : setup = .switched := hsw
    rw [hsw'] at hbefore'
    cases hbefore'
  done := by
    intro hd
    have hd' : setup = .done := hd
    rw [hd'] at hbefore'
    cases hbefore'
  calls := by
    intro t
    refine (h.calls t).setSetup (fun hdone => ?_) fun _ => hbefore
    rw [hdone] at hbefore
    cases hbefore

theorem IdsOk.step {a : Access} (h : IdsOk b s) (hbound : s'.early.length < 2 ^ 22)
    (hbound' : s.early.length ≤ s'.early.length) (hstep : FittingAccess b s a s') :
    IdsOk b s' := by
  obtain ⟨hstep, hfits⟩ := hstep
  unfold IdStep Ids.access at hstep
  cases a with
  | readId t =>
    dsimp only at hstep
    split at hstep
    · cases hstep
      exact h.setCall (h.readId hfits)
    · cases hstep
  | readReady t =>
    dsimp only at hstep
    split at hstep
    · rename_i logId hcall
      cases hstep
      exact h.setCall (h.readReady (hcall ▸ h.calls t))
    · cases hstep
  | swap t =>
    dsimp only at hstep
    split at hstep
    · rename_i logId nextLogId hcall
      split at hstep
      · rename_i hsame
        cases hstep
        subst hsame
        exact h.swap (by omega) (hcall ▸ h.calls t)
      · cases hstep
        exact h.setCall trivial
    · cases hstep
  | setupReadId =>
    dsimp only at hstep
    split at hstep
    · rename_i hsetup
      cases hstep
      exact h.setSetup (by rw [hsetup]; rfl) rfl
    · cases hstep
  | setupSwap =>
    dsimp only at hstep
    split at hstep
    · rename_i logId hsetup
      split at hstep
      · cases hstep
        exact h.setupSwap (by rw [hsetup]; rfl)
      · cases hstep
        exact h.setSetup (by rw [hsetup]; rfl) rfl
    · cases hstep
  | setupReady =>
    dsimp only at hstep
    split at hstep
    · rename_i hsetup
      cases hstep
      exact h.setupReady hsetup
    · cases hstep

theorem early_length_le {a : Access} (hstep : IdStep b s a s') :
    s.early.length ≤ s'.early.length := by
  unfold IdStep Ids.access at hstep
  cases a with
  | swap t =>
    dsimp only at hstep
    split at hstep
    · split at hstep
      · cases hstep
        unfold Ids.return
        dsimp only
        split <;> simp
      · cases hstep
        exact Nat.le_refl _
    · cases hstep
  | setupSwap =>
    dsimp only at hstep
    split at hstep
    · split at hstep <;> cases hstep <;> exact Nat.le_refl _
    · cases hstep
  | _ =>
    dsimp only at hstep
    split at hstep <;> cases hstep
    exact Nat.le_refl _

theorem idsOk_of_run {as : List Access} (hrun : Run (FittingAccess b) (.init b) as s)
    (hbound : s.early.length < 2 ^ 22) : IdsOk b s := by
  let bounded : Ids → Prop := fun s => s.early.length < 2 ^ 22 → IdsOk b s
  have hinv : bounded s := by
    refine hrun.invariant (fun _ => idsOk_init b) ?_
    intro s a s' ih hstep hlt
    have hle := early_length_le hstep.1
    exact (ih (by omega)).step hlt hle hstep
  exact hinv hbound

/-! ## The ids -/

theorem nodup_map_range {f : Nat → Nat} {n : Nat}
    (hinj : ∀ i < n, ∀ j < n, f i = f j → i = j) : ((List.range n).map f).Nodup := by
  refine List.Nodup.map_on ?_ nodup_range
  intro i hi j hj heq
  exact hinj i (mem_range.mp hi) j (mem_range.mp hj) heq

theorem IdsOk.nodup (h : IdsOk b s) (hlate : s.late.length < 2 ^ 22) :
    (s.early ++ s.late).Nodup := by
  rw [nodup_append]
  refine ⟨?_, ?_, ?_⟩
  · rw [h.early]
    refine nodup_map_range fun i _ j _ heq => ?_
    unfold earlyId at heq
    omega
  · rw [h.late]
    refine nodup_map_range fun i hi j hj heq => ?_
    unfold lateId at heq
    omega
  · rw [h.early, h.late]
    intro id hid id' hid' heq
    obtain ⟨k, -, hk⟩ := mem_map.mp hid
    obtain ⟨j, -, hj⟩ := mem_map.mp hid'
    rw [← hk, ← hj] at heq
    exact earlyId_ne_lateId b _ _ heq

/-- `id` is the largest id of Hostboot of the lower range in a list. -/
def IsLargest (ids : List Nat) (id : Nat) : Prop :=
  id ∈ ids ∧ isPostId ERRLOG_PLID_BASE id = true ∧
    ∀ other ∈ ids, isPostId ERRLOG_PLID_BASE other = true → other ≤ id

/-- No log of this node in PNOR has a larger number than the log with the
largest id, which may be of another node. -/
def OwnNumbers (b : Boot Log) : Prop :=
  ∀ id, IsLargest b.found id → ∀ own ∈ b.found, isPostId ERRLOG_PLID_BASE own = true →
    own / 2 ^ 24 = b.ivBaseNodeId / 2 ^ 24 → own % 2 ^ 24 ≤ id % 2 ^ 24

theorem IdsOk.fresh (h : IdsOk b s) (hlate : s.late.length < 2 ^ 22) (hown : OwnNumbers b)
    (hsmall : ∀ id, IsLargest b.found id → id % 2 ^ 24 < 0x400000) :
    ∀ id ∈ s.late, id ∉ b.found := by
  intro id hid hfound
  rw [h.late] at hid
  obtain ⟨k, hk, rfl⟩ := mem_map.mp hid
  have hk' : k < s.late.length := mem_range.mp hk
  have hnode := ivBaseNodeId_eq b
  have hpost : isPostId ERRLOG_PLID_BASE (lateId b (k + 1)) = true :=
    isPostId_base_add b (Nat.mod_lt _ (Nat.two_pow_pos 23))
  have hmax := maxId_largest b
  obtain ⟨i, hi, hfull, hid'⟩ := mem_found.1 hfound
  have hle : lateId b (k + 1) ≤ b.maxId := by
    rw [← hid']
    exact hmax.largest i hi hfull (hid' ▸ hpost)
  have hlargest : IsLargest b.found b.maxId := by
    rcases hmax.attained with hzero | ⟨j, hj, hjfull, hjid, hjpost⟩
    · rw [hzero] at hle
      unfold lateId at hle
      omega
    · refine ⟨mem_found.2 ⟨j, hj, hjfull, hjid⟩, hjpost, ?_⟩
      intro other hother hotherpost
      obtain ⟨i', hi', hfull', rfl⟩ := mem_found.1 hother
      exact hmax.largest i' hi' hfull' hotherpost
  have hnumber := hsmall b.maxId hlargest
  have hbound := hown b.maxId hlargest _ hfound hpost (by
    unfold lateId
    omega)
  unfold lateId startNumber at hbound
  omega

/-- In a run in which no call reads the counter between the two steps of the
switch, with fewer than `2 ^ 22` ids in each phase, the ids are pairwise
distinct.  Those of the second phase are not in PNOR when the largest id there
has a number below `0x400000` and no log of this node has a larger number. -/
theorem unique_of_run {as : List Access} (hrun : Run (FittingAccess b) (.init b) as s)
    (hearly : s.early.length < 2 ^ 22) (hlate : s.late.length < 2 ^ 22) (hown : OwnNumbers b) :
    (s.early ++ s.late).Nodup ∧
      ((∀ id, IsLargest b.found id → id % 2 ^ 24 < 0x400000) → ∀ id ∈ s.late, id ∉ b.found) := by
  have hids := idsOk_of_run hrun hearly
  exact ⟨hids.nodup hlate, fun hsmall => hids.fresh hlate hown hsmall⟩

/-- The accesses of a call that nothing interrupts. -/
def wholeCall (t : Nat) : List Access := [.readId t, .readReady t, .swap t]

/-- A boot of node 0 over a partition whose first slots hold logs. -/
def sampleBoot (ids : List Nat) : Boot Nat where
  wordIsZero := false
  topologyId := 0
  env := sampleEnv true
  bmc := sampleBmc
  slots := fun i => ((ids.map sampleImage)[i]?).getD (blankSlots i)

/-- The ids that a list of accesses returns, when all of them meet the condition
or `fitting` is not asked for. -/
def returned (b : Boot Log) (fitting : Bool) (as : List Access) : Option (List Nat × List Nat) :=
  (as.foldlM (fun s a => if fitting && !decide (a.Fits s) then none else s.access b a)
    (Ids.init b)).map fun s => (s.early, s.late)

theorem run_of_returned {fitting : Bool} {as : List Access} {early late : List Nat}
    (h : returned b fitting as = some (early, late)) :
    ∃ s, Run (IdStep b) (.init b) as s ∧ (fitting = true → Run (FittingAccess b) (.init b) as s) ∧
      s.early = early ∧ s.late = late := by
  obtain ⟨s, hfold, hids⟩ := Option.map_eq_some_iff.mp h
  simp only [Prod.mk.injEq] at hids
  refine ⟨s, Run.of_foldlM ?_ hfold, fun hfitting => Run.of_foldlM ?_ hfold, hids⟩
  · intro s a s' hstep
    split at hstep
    · cases hstep
    · exact hstep
  · intro s a s' hstep
    split at hstep
    · cases hstep
    · rename_i hfits
      rw [hfitting] at hfits
      exact ⟨hstep, by simpa using hfits⟩

/-- A log with number 3 is in PNOR; the counter goes to 4 at the switch, and the
next id has number 5. -/
theorem unique_of_run_switch :
    ∃ s, Run (FittingAccess (sampleBoot [0x90000003])) (.init (sampleBoot [0x90000003]))
        (wholeCall 0 ++ [.setupReadId, .setupSwap, .setupReady] ++ wholeCall 1) s ∧
      s.early = [0x90800001] ∧ s.late = [0x90000005] ∧ (s.early ++ s.late).Nodup ∧
      ∀ id ∈ s.late, id ∉ (sampleBoot [0x90000003]).found := by
  have hfound : (sampleBoot [0x90000003]).found = [0x90000003] := by decide +kernel
  have hids : returned (sampleBoot [0x90000003]) true
      (wholeCall 0 ++ [.setupReadId, .setupSwap, .setupReady] ++ wholeCall 1) =
        some ([0x90800001], [0x90000005]) := by decide +kernel
  obtain ⟨s, -, hrun, hearly, hlate⟩ := run_of_returned hids
  have hrun := hrun rfl
  have hown : OwnNumbers (sampleBoot [0x90000003]) := by
    intro id hid own howns _ _
    have hid' := hid.1
    rw [hfound, mem_singleton] at hid' howns
    rw [hid', howns]
  have hboth := unique_of_run hrun (by rw [hearly]; decide) (by rw [hlate]; decide) hown
  refine ⟨s, hrun, hearly, hlate, hboth.1, hboth.2 ?_⟩
  intro id hid
  have hid' := hid.1
  rw [hfound, mem_singleton] at hid'
  rw [hid']
  decide

/-- A call between the two steps of the switch gets an id that was returned
before.  And with a log of node 4 in PNOR the first id of node 0 behind the
switch is that of a log of its own. -/
theorem not_unique_in_switch :
    (∃ s, Run (IdStep (sampleBoot [])) (.init (sampleBoot []))
        (wholeCall 0 ++ wholeCall 0 ++ [.setupReadId, .setupSwap] ++ wholeCall 0) s ∧
      s.early = [0x90800001, 0x90800002] ∧ s.late = [0x90800002]) ∧
    (∃ s, Run (IdStep (sampleBoot [0x94000001, 0x90000003]))
        (.init (sampleBoot [0x94000001, 0x90000003]))
        ([.setupReadId, .setupSwap, .setupReady] ++ wholeCall 0) s ∧
      (sampleBoot [0x94000001, 0x90000003]).found = [0x94000001, 0x90000003] ∧
      s.late = [0x90000003]) := by
  constructor
  · have hids : returned (sampleBoot []) false
        (wholeCall 0 ++ wholeCall 0 ++ [.setupReadId, .setupSwap] ++ wholeCall 0) =
          some ([0x90800001, 0x90800002], [0x90800002]) := by decide +kernel
    obtain ⟨s, hrun, -, hearly, hlate⟩ := run_of_returned hids
    exact ⟨s, hrun, hearly, hlate⟩
  · have hids : returned (sampleBoot [0x94000001, 0x90000003]) false
        ([.setupReadId, .setupSwap, .setupReady] ++ wholeCall 0) = some ([], [0x90000003]) := by
      decide +kernel
    obtain ⟨s, hrun, -, -, hlate⟩ := run_of_returned hids
    exact ⟨s, hrun, (by decide +kernel), hlate⟩

end Hostboot.Errl
