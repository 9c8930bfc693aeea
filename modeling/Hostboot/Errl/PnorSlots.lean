import Hostboot.Lib.Bytes
import Hostboot.Lib.Run

/-!
# Error logs in PNOR

`ErrlManager` of `src/usr/errl/errlmanager_common.C` keeps error logs in a
partition of PNOR, one flattened log in each slot of 4 KB.  A slot whose first
word is `0xFFFFFFFF` is empty.  A log counts as unacknowledged while the ACK bit
in word 5 of its SRC is set.  The manager writes a new log to the next slot, in
cyclic order, that is empty or acknowledged; two logs are kept even when they
are acknowledged, the last of the IPL and the first of the runtime.

The partition is a family of slots, each a memory of bytes by offset.  What
`ErrlEntry::flatten` writes to a slot and whether `ErrlEntry::unflatten` can read
one are in `Env`, with what the manager relies on: a log that was flattened is
not empty, and its ACK bit is set.  What the BMC says to the logs that
`setupPnorInfo` sends there is part of the step (`Bmc`).  A step is a call of the
manager or a reboot, which starts a new manager over the same partition.  The logs
that `setupPnorInfo` saves at its end are saved by calls of `saveErrLogToPnor`,
which are steps of their own.

`unacked` is a ghost: the logs that were saved and not acknowledged since, by
slot, with the contents they were saved with.
-/

namespace Hostboot.Errl

open Hostboot.Lib

/-! ## Slots -/

/-- A slot: its bytes by offset. -/
abbrev Slot : Type := Mem

def EMPTY_ERRLOG_IN_PNOR : Nat := 0xFFFFFFFF

/-- `ErrlSrc::ACK_BIT`. -/
def ACK_BIT : Nat := 0x00200000

def ERRLOG_PLID_BASE : Nat := 0x90000000

def ERRLOG_HBRT_EID_BASE : Nat := 0x80000000

def ERRLOG_PLID_MASK : Nat := 0x00FFFFFF

def ERRLOG_PLID_POST_MAX : Nat := 0x007FFFFF

def FIRST_BYTE_ERRLOG : Nat := 0xF0000000

def PNOR_ERROR_LENGTH : Nat := 4096

/-- The offset of `plid` in `pelPrivateHeaderSection_t`. -/
def plidOffset : Nat := 40

/-- The offset of `eid` in `pelPrivateHeaderSection_t`. -/
def eidOffset : Nat := 44

/-- The offset of word 5 of the SRC: the private header has 48 bytes, the user
header has 24, and the word stands behind 28 bytes of the SRC section. -/
def word5Offset : Nat := 48 + 24 + 28

namespace Slot

/-- `ErrlManager::isSlotEmpty`. -/
def isSlotEmpty (s : Slot) : Bool := s.get32 0 == EMPTY_ERRLOG_IN_PNOR

/-- `ErrlManager::readEidFromFlattened`. -/
def readEidFromFlattened (s : Slot) : Nat := s.get32 eidOffset

/-- `ErrlManager::readPlidFromFlattened`. -/
def readPlidFromFlattened (s : Slot) : Nat := s.get32 plidOffset

/-- `ErrlManager::isSlotACKed`. -/
def isSlotACKed (s : Slot) : Bool := s.get32 word5Offset &&& ACK_BIT == 0

/-- `ErrlManager::setACKInFlattened`. -/
def setACKInFlattened (s : Slot) : Slot :=
  s.put32 word5Offset (s.get32 word5Offset &&& (0xFFFFFFFF - ACK_BIT))

/-- The id that `setupPnorInfo` takes for a log: the eid, or the plid of a log
that the FSP has put there. -/
def foundId (s : Slot) : Nat :=
  if s.readEidFromFlattened &&& FIRST_BYTE_ERRLOG ≠ ERRLOG_PLID_BASE then s.readPlidFromFlattened
  else s.readEidFromFlattened

end Slot

/-! ## The manager -/

/-- The build, and the code around the manager. -/
structure Env (Log : Type) where
  /-- Whether the build has `CONFIG_PLDM`. -/
  configPldm : Bool
  /-- The size of the partition in bytes. -/
  infoSize : Nat
  /-- `ErrlEntry::eid`. -/
  eid : Log → Nat
  /-- `ErrlEntry::getSkipProcessingLog`. -/
  getSkipProcessingLog : Log → Bool
  /-- `ErrlEntry::flatten` into a slot: what the slot holds then, and the
  number of bytes, zero when it fails. -/
  flatten : Log → Slot → Slot × Nat
  /-- Whether `ErrlEntry::unflatten` of a slot returns zero. -/
  unflatten : Slot → Bool
  flatten_notEmpty : ∀ log slot, (flatten log slot).2 ≠ 0 →
    (flatten log slot).1.isSlotEmpty = false
  flatten_unacked : ∀ log slot, (flatten log slot).2 ≠ 0 →
    (flatten log slot).1.isSlotACKed = false

/-- The state of the manager with the partition. -/
structure ErrlManager where
  slots : Nat → Slot
  /-- Whether the code runs as `__HOSTBOOT_RUNTIME`. -/
  runtime : Bool
  /-- Whether `iv_pnorAddr` is set. -/
  ivPnorAddr : Bool
  ivMaxErrlInPnor : Nat
  ivPnorOpenSlot : Nat
  ivFirstHbrtEid : Nat
  ivLastIplEid : Nat
  /-- The logs that were saved and not acknowledged. -/
  unacked : Nat → Option Slot

namespace ErrlManager

/-- A new manager over a partition. -/
def init (slots : Nat → Slot) : ErrlManager where
  slots := slots
  runtime := false
  ivPnorAddr := false
  ivMaxErrlInPnor := 0
  ivPnorOpenSlot := 0
  ivFirstHbrtEid := 0
  ivLastIplEid := 0
  unacked := fun _ => none

/-- A reboot.  At runtime the last id of the IPL comes from an attribute. -/
def reboot (m : ErrlManager) (runtime : Bool) (lastIplEid : Nat) : ErrlManager :=
  { init m.slots with
    runtime := runtime
    ivLastIplEid := if runtime then lastIplEid else 0
    unacked := m.unacked }

/-- Whether a slot holds the last log of the IPL or the first of the runtime. -/
def isReserved (m : ErrlManager) (i : Nat) : Bool :=
  (m.slots i).readEidFromFlattened == m.ivLastIplEid ||
    (m.slots i).readEidFromFlattened == m.ivFirstHbrtEid

/-- The condition under which the search stops at a slot. -/
def isOpen (m : ErrlManager) (i : Nat) : Bool :=
  (m.slots i).isSlotEmpty || ((m.slots i).isSlotACKed && !m.isReserved i)

/-- The slot behind a slot, with the counter in 32 bits. -/
def nextSlot (m : ErrlManager) (slot : Nat) : Nat :=
  if (slot + 1) % 2 ^ 32 = m.ivMaxErrlInPnor then 0 else (slot + 1) % 2 ^ 32

/-- The loop of `incrementPnorOpenSlot`. -/
def searchSlot (m : ErrlManager) (initialSlot : Nat) : Nat → Nat → Option Nat
  | 0, _ => none
  | fuel + 1, slot =>
    if !m.isOpen (m.nextSlot slot) && m.nextSlot slot != initialSlot then
      searchSlot m initialSlot fuel (m.nextSlot slot)
    else some (m.nextSlot slot)

/-- `ErrlManager::incrementPnorOpenSlot`: the slot it comes to.  The counter has
32 bits, and the loop comes back to its start in so many rounds. -/
def incrementPnorOpenSlot (m : ErrlManager) : Option Nat :=
  m.searchSlot m.ivPnorOpenSlot (2 ^ 32) m.ivPnorOpenSlot

variable {Log : Type}

/-- The part of `saveErrLogToPnor` behind the search.  When the flatten fails the
cursor goes back, and the slot keeps what was written to it. -/
def saveToSlot (env : Env Log) (m : ErrlManager) (log : Log) (i : Nat) : ErrlManager :=
  let r := env.flatten log (m.slots i)
  if r.2 ≠ 0 then
    { m with
      slots := Function.update m.slots i r.1
      ivPnorOpenSlot := i
      ivLastIplEid :=
        if !m.runtime && env.eid log > m.ivLastIplEid then env.eid log else m.ivLastIplEid
      unacked := Function.update m.unacked i (some r.1) }
  else { m with slots := Function.update m.slots i r.1 }

def saveErrLogToPnor (env : Env Log) (m : ErrlManager) (log : Log) :
    Option (ErrlManager × Bool) :=
  if env.getSkipProcessingLog log then some (m, true)
  else if !m.ivPnorAddr then some (m, false)
  else
    match m.incrementPnorOpenSlot with
    | none => none
    | some i =>
      if i = m.ivPnorOpenSlot then some (m, false) else some (saveToSlot env m log i, true)

/-- Setting the ACK bit of a slot to acknowledged. -/
def ackSlot (m : ErrlManager) (i : Nat) : ErrlManager :=
  { m with
    slots := Function.update m.slots i (m.slots i).setACKInFlattened
    unacked := Function.update m.unacked i none }

/-- Whether a slot holds an unacknowledged log with an id. -/
def matchesEid (m : ErrlManager) (eid i : Nat) : Bool :=
  !(m.slots i).isSlotEmpty && !(m.slots i).isSlotACKed && (m.slots i).readEidFromFlattened == eid

def ackErrLogInPnor (m : ErrlManager) (eid : Nat) : ErrlManager × Bool :=
  match (List.range m.ivMaxErrlInPnor).find? (m.matchesEid eid) with
  | some i => (m.ackSlot i, true)
  | none => (m, false)

/-! ## Setting up -/

/-- The loop of `setupPnorInfo`: the manager and `l_maxId`. -/
structure Scan where
  manager : ErrlManager
  maxId : Nat

/-- Whether an id is one of Hostboot, with a number of the range after the
setup. -/
def isPostId (base id : Nat) : Bool :=
  id &&& FIRST_BYTE_ERRLOG == base && decide (id &&& ERRLOG_PLID_MASK ≤ ERRLOG_PLID_POST_MAX)

/-- What the code around a call of `setupPnorInfo` says to the log of a slot. -/
structure Bmc where
  /-- `getSkipProcessingLog`, after `setErrlSkipFlag`. -/
  getSkipProcessingLog : Nat → Bool
  isBmcInterfaceEnabled : Nat → Bool
  /-- Whether the log is flattened and `PLDM::sendErrLog` takes it. -/
  sendErrLog : Nat → Bool

/-- Whether a log that can be read is sent to the BMC with success. -/
def Bmc.takes (bmc : Bmc) (i : Nat) : Bool :=
  !bmc.getSkipProcessingLog i && bmc.isBmcInterfaceEnabled i && bmc.sendErrLog i

/-- `ErrlManager::sendErrLogToBmc`, which acknowledges by the eid. -/
def sendErrLogToBmc (m : ErrlManager) (bmc : Bmc) (i eid : Nat) : ErrlManager × Bool :=
  if bmc.sendErrLog i then m.ackErrLogInPnor eid else (m, false)

/-- Whether `setupPnorInfo` sets an unacknowledged log to acknowledged where it
finds it: on an FSP system always, on a BMC system when it cannot be read. -/
def acksAtSetup (env : Env Log) (s : Slot) : Bool := !env.configPldm || !env.unflatten s

/-- The check of an id against `l_maxId`, which also moves the cursor. -/
def noteMaxId (r : Scan) (i id : Nat) : Scan :=
  if isPostId ERRLOG_PLID_BASE id && decide (id > r.maxId) then
    { r with manager := { r.manager with ivPnorOpenSlot := i }, maxId := id }
  else r

/-- The check of an id against `iv_firstHbrtEid`. -/
def noteHbrtEid (r : Scan) (id : Nat) : Scan :=
  if isPostId ERRLOG_HBRT_EID_BASE id && decide (id > r.manager.ivFirstHbrtEid) then
    { r with manager := { r.manager with ivFirstHbrtEid := id } }
  else r

/-- The check whether a log was acknowledged.  A log that is neither skipped nor
sent waits in `iv_errlList`. -/
def ackUnacked (env : Env Log) (bmc : Bmc) (r : Scan) (i : Nat) (slot : Slot) : Scan :=
  if slot.isSlotACKed then r
  else if acksAtSetup env slot then { r with manager := r.manager.ackSlot i }
  else if bmc.getSkipProcessingLog i then r
  else if bmc.isBmcInterfaceEnabled i then
    { r with manager := (r.manager.sendErrLogToBmc bmc i slot.readEidFromFlattened).1 }
  else r

/-- One slot of the loop of `setupPnorInfo`. -/
def scanSlot (env : Env Log) (bmc : Bmc) (r : Scan) (i : Nat) : Scan :=
  let slot := r.manager.slots i
  if slot.isSlotEmpty then r
  else ackUnacked env bmc (noteHbrtEid (noteMaxId r i slot.foundId) slot.foundId) i slot

/-- The start of `setupPnorInfo`. -/
def setupStart (env : Env Log) (m : ErrlManager) : ErrlManager :=
  let max := env.infoSize / PNOR_ERROR_LENGTH % 2 ^ 32
  { m with
    ivPnorAddr := true
    ivMaxErrlInPnor := max
    ivPnorOpenSlot := (max + (2 ^ 32 - 1)) % 2 ^ 32 }

/-- The loop of `setupPnorInfo` over the slots. -/
def scanSlots (env : Env Log) (bmc : Bmc) (m : ErrlManager) : Scan :=
  let m := setupStart env m
  (List.range m.ivMaxErrlInPnor).foldl (scanSlot env bmc)
    ⟨{ m with ivFirstHbrtEid := ERRLOG_HBRT_EID_BASE }, 0⟩

/-- `ErrlManager::setupPnorInfo`, up to the switch of the log ids. -/
def setupPnorInfo (env : Env Log) (m : ErrlManager) (bmc : Bmc) : ErrlManager :=
  if m.runtime then setupStart env m else (scanSlots env bmc m).manager

end ErrlManager

/-! ## Runs -/

/-- What can happen to the partition. -/
inductive Op (Log : Type) where
  | reboot (runtime : Bool) (lastIplEid : Nat)
  | setupPnorInfo (bmc : ErrlManager.Bmc)
  | saveErrLogToPnor (log : Log)
  | ackErrLogInPnor (eid : Nat)

/-- One step. -/
def exec {Log : Type} (env : Env Log) (m : ErrlManager) : Op Log → Option ErrlManager
  | .reboot runtime lastIplEid => some (m.reboot runtime lastIplEid)
  | .setupPnorInfo bmc => some (m.setupPnorInfo env bmc)
  | .saveErrLogToPnor log => (m.saveErrLogToPnor env log).map Prod.fst
  | .ackErrLogInPnor eid => some (m.ackErrLogInPnor eid).1

/-- One step, as a relation. -/
def Step {Log : Type} (env : Env Log) (m : ErrlManager) (op : Op Log) (m' : ErrlManager) : Prop :=
  exec env m op = some m'

end Hostboot.Errl
