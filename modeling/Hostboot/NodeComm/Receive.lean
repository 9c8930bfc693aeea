import Hostboot.Lib.Packed
import Hostboot.NodeComm.Transfer
import Mathlib.Order.Lattice

/-!
# What a transfer hands out

`nodeCommTransferRecv` on its own, against a peer that sends what it likes.  The
buffer is the memory that `malloc` returned: a byte of it is there when it was
written.  `contract_iff` says for which messages the call keeps its contract.

The size of the data and the number of data messages are two fields of the
initiation message, and nothing compares them.  The size is compared with the
one of the transfer type only after the buffer was handed out.
-/

namespace Hostboot.NodeComm

open Hostboot.Lib List

/-! ## The call -/

/-- What the mailbox calls return, in their order.  A receive returns a message or an error. -/
structure Mailbox where
  recvMessage : Nat → Option UInt64
  sendMessage : Nat → Bool

/-- Bytes of allocated memory. -/
abbrev Buffer : Type := List (Option UInt8)

/-- `memcpy` to an offset of the buffer, or a write outside of it. -/
def memcpy (buffer : Buffer) (offset : Nat) (bytes : List UInt8) : Option Buffer :=
  if offset + bytes.length ≤ buffer.length then
    some (buffer.take offset ++ (bytes.map some ++ buffer.drop (offset + bytes.length)))
  else none

/-- What `nodeCommTransferRecv` returns and hands out. -/
structure Received where
  err : Option ReasonCode
  oData : Option Buffer
  oDataSize : Nat

/-- A return with an error. -/
def Received.failed (err : ReasonCode) : Received := ⟨some err, none, 0⟩

/-- The loop over the data messages: the error and the buffer. -/
def recvLoop (box : Mailbox) :
    Nat → Nat → Buffer → Nat → Nat → Option (Option ReasonCode × Buffer)
  | 0, _, dataBuffer, _, _ => some (none, dataBuffer)
  | rounds + 1, msgSeq, dataBuffer, bytesRead, bytesLeft =>
    match box.recvMessage msgSeq with
    | none => some (some .mailbox, dataBuffer)
    | some dataRecv => do
      let loopBytesRead := loopDataLength bytesLeft
      let dataBuffer ← memcpy dataBuffer bytesRead
        ((Wire.encode 8 dataRecv.toNat).take loopBytesRead)
      if box.sendMessage msgSeq then
        recvLoop box rounds (msgSeq + 1) dataBuffer (bytesRead + loopBytesRead)
          (bytesLeft - loopBytesRead)
      else some (some .mailbox, dataBuffer)

/-- The check of the initiation message. -/
def initiationMismatch (myNode sentNode : Nat) (transferType : TransferType)
    (initMsg : NodeCommMsgFormat) : Bool :=
  initMsg.sendingNode != sentNode || initMsg.recvingNode != myNode ||
    initMsg.msgType != transferType.code || initMsg.msgSeqNum != 0

/-- `nodeCommTransferRecv`.  `none` is a write outside of the buffer. -/
def nodeCommTransferRecv (myNode sentNode : Nat) (transferType : TransferType) (box : Mailbox) :
    Option Received :=
  match box.recvMessage 0 with
  | none => some (.failed .mailbox)
  | some dataRecv =>
    let initMsg := NodeCommMsgFormat.ofValue dataRecv.toNat
    if initiationMismatch myNode sentNode transferType initMsg then
      some (.failed .RC_NCT_INITIATION_MISMATCH)
    else if !box.sendMessage 0 then some (.failed .mailbox)
    else do
      let dataBuffer := List.replicate initMsg.totalDataSize none
      let (err, dataBuffer) ←
        recvLoop box initMsg.totalDataMsgs 1 dataBuffer 0 initMsg.totalDataSize
      match err with
      | some err => some (.failed err)
      | none =>
        if sizeMismatch transferType initMsg.totalDataSize then
          some ⟨some .RC_NCT_TYPE_SIZE_MISMATCH, some dataBuffer, initMsg.totalDataSize⟩
        else some ⟨none, some dataBuffer, initMsg.totalDataSize⟩

/-! ## The contract -/

/-- The bytes of some data messages, from one on. -/
def dataBytes (box : Mailbox) (msgSeq n : Nat) : List UInt8 :=
  (List.range' msgSeq n).flatMap fun k =>
    match box.recvMessage k with
    | some dataRecv => Wire.encode 8 dataRecv.toNat
    | none => []

/-- What is promised of the call. -/
structure Contract (box : Mailbox) (r : Received) : Prop where
  /-- The data was received. -/
  success : r.err = none → ∃ msgs bytes, bytes <+: dataBytes box 1 msgs ∧
    bytes.length = r.oDataSize ∧ r.oData = some (bytes.map some)
  /-- There is no data with an error. -/
  error : r.err ≠ none → r.oData = none ∧ r.oDataSize = 0

/-- All messages of some rounds come through. -/
def AllThrough (box : Mailbox) (msgSeq rounds : Nat) : Prop :=
  ∀ k ∈ List.range' msgSeq rounds, (box.recvMessage k).isSome ∧ box.sendMessage k = true

/-- The peer announces a transfer, and all its messages come through. -/
def Completes (myNode sentNode : Nat) (transferType : TransferType) (box : Mailbox)
    (initMsg : NodeCommMsgFormat) : Prop :=
  (box.recvMessage 0).map (fun dataRecv => NodeCommMsgFormat.ofValue dataRecv.toNat) =
      some initMsg ∧
    initiationMismatch myNode sentNode transferType initMsg = false ∧ box.sendMessage 0 = true ∧
    AllThrough box 1 initMsg.totalDataMsgs

variable {box : Mailbox} {myNode sentNode : Nat} {transferType : TransferType}

theorem loopDataLength_eq (bytesLeft : Nat) : loopDataLength bytesLeft = min 8 bytesLeft := by
  unfold loopDataLength
  split <;> omega

/-! ## The loop -/

/-- A buffer whose first bytes are written. -/
def filled (written : List UInt8) (left : Nat) : Buffer :=
  written.map some ++ List.replicate left none

variable {written : List UInt8} {left msgSeq rounds : Nat} {dataRecv : UInt64}
  {initMsg : NodeCommMsgFormat}

theorem memcpy_filled {bytes : List UInt8} (h : bytes.length ≤ left) :
    memcpy (filled written left) written.length bytes
      = some (filled (written ++ bytes) (left - bytes.length)) := by
  have hlen : (written.map some).length = written.length := length_map some
  have hfits : written.length + bytes.length ≤ (filled written left).length := by
    rw [filled, length_append, length_replicate, hlen]
    omega
  have htake : (filled written left).take written.length = written.map some :=
    take_left' hlen
  have hdrop : (filled written left).drop (written.length + bytes.length)
      = List.replicate (left - bytes.length) none := by
    rw [filled, ← drop_drop, drop_left' hlen, drop_replicate]
  rw [memcpy, if_pos hfits, htake, hdrop, filled, map_append, append_assoc]

theorem allThrough_succ :
    AllThrough box msgSeq (rounds + 1) ↔
      ((box.recvMessage msgSeq).isSome ∧ box.sendMessage msgSeq = true) ∧
        AllThrough box (msgSeq + 1) rounds := by
  rw [AllThrough, range'_succ, forall_mem_cons, AllThrough]

theorem dataBytes_succ (h : box.recvMessage msgSeq = some dataRecv) :
    dataBytes box msgSeq (rounds + 1)
      = Wire.encode 8 dataRecv.toNat ++ dataBytes box (msgSeq + 1) rounds := by
  rw [dataBytes, range'_succ, flatMap_cons, h, dataBytes]

theorem length_dataBytes (msgSeq : Nat) (h : AllThrough box msgSeq rounds) :
    (dataBytes box msgSeq rounds).length = 8 * rounds := by
  induction rounds generalizing msgSeq with
  | zero => rw [dataBytes, range'_zero, flatMap_nil, length_nil]
  | succ rounds ih =>
    obtain ⟨⟨hrecv, -⟩, hrest⟩ := allThrough_succ.mp h
    obtain ⟨dataRecv, hdata⟩ := Option.isSome_iff_exists.mp hrecv
    rw [dataBytes_succ hdata, length_append, Wire.length_encode, ih _ hrest]
    omega

/-- The bytes that a round writes. -/
def roundBytes (dataRecv : UInt64) (left : Nat) : List UInt8 :=
  (Wire.encode 8 dataRecv.toNat).take left

theorem length_roundBytes (dataRecv : UInt64) (left : Nat) :
    (roundBytes dataRecv left).length = loopDataLength left := by
  rw [roundBytes, length_take, Wire.length_encode, loopDataLength_eq, Nat.min_comm]

theorem take_loopDataLength (dataRecv : UInt64) (left : Nat) :
    (Wire.encode 8 dataRecv.toNat).take (loopDataLength left) = roundBytes dataRecv left := by
  have hlen : ((Wire.encode 8 dataRecv.toNat).take left).length ≤ 8 := by
    rw [length_take, Wire.length_encode]
    omega
  rw [roundBytes, loopDataLength_eq, ← take_take, take_of_length_le hlen]

theorem recvLoop_succ (h : box.recvMessage msgSeq = some dataRecv) :
    recvLoop box (rounds + 1) msgSeq (filled written left) written.length left
      = if box.sendMessage msgSeq then
          recvLoop box rounds (msgSeq + 1)
            (filled (written ++ roundBytes dataRecv left) (left - loopDataLength left))
            (written ++ roundBytes dataRecv left).length (left - loopDataLength left)
        else
          some (some .mailbox,
            filled (written ++ roundBytes dataRecv left) (left - loopDataLength left)) := by
  have hfits : (roundBytes dataRecv left).length ≤ left := length_take_le _ _
  rw [recvLoop, h]
  simp only [take_loopDataLength]
  rw [memcpy_filled hfits, Option.bind_eq_bind, Option.bind_some, length_append,
    length_roundBytes]

theorem recvLoop_of_allThrough (rounds : Nat) (msgSeq : Nat) (written : List UInt8) (left : Nat)
    (h : AllThrough box msgSeq rounds) :
    recvLoop box rounds msgSeq (filled written left) written.length left
      = some (none,
          filled (written ++ (dataBytes box msgSeq rounds).take left) (left - 8 * rounds)) := by
  induction rounds generalizing msgSeq written left with
  | zero => rw [recvLoop, dataBytes, range'_zero, flatMap_nil, take_nil,
      append_nil, Nat.mul_zero, Nat.sub_zero]
  | succ rounds ih =>
    obtain ⟨⟨hrecv, hsend⟩, hrest⟩ := allThrough_succ.mp h
    obtain ⟨dataRecv, hdata⟩ := Option.isSome_iff_exists.mp hrecv
    have hsub : left - min 8 left = left - 8 := by omega
    have hleft : left - 8 - 8 * rounds = left - 8 * (rounds + 1) := by omega
    rw [recvLoop_succ hdata, if_pos hsend, ih _ _ _ hrest, dataBytes_succ hdata, take_append,
      Wire.length_encode, append_assoc, roundBytes, loopDataLength_eq, hsub, hleft]

/-- A round that does not come through ends the call with the error of the mailbox. -/
theorem recvLoop_of_not_allThrough (rounds : Nat) (msgSeq : Nat) (written : List UInt8)
    (left : Nat) (h : ¬ AllThrough box msgSeq rounds) :
    ∃ dataBuffer, recvLoop box rounds msgSeq (filled written left) written.length left
      = some (some .mailbox, dataBuffer) := by
  induction rounds generalizing msgSeq written left with
  | zero => exact absurd (fun k hk => absurd hk not_mem_nil) h
  | succ rounds ih =>
    cases hdata : box.recvMessage msgSeq with
    | none => exact ⟨filled written left, by rw [recvLoop, hdata]⟩
    | some dataRecv =>
      rw [recvLoop_succ hdata]
      by_cases hsend : box.sendMessage msgSeq = true
      · rw [if_pos hsend]
        refine ih _ _ _ fun hrest => h (allThrough_succ.mpr ⟨⟨?_, hsend⟩, hrest⟩)
        rw [hdata, Option.isSome_some]
      · rw [if_neg hsend]
        exact ⟨_, rfl⟩

/-! ## The call -/

theorem contract_failed (err : ReasonCode) : Contract box (.failed err) :=
  ⟨fun h => absurd h (Option.some_ne_none err), fun _ => ⟨rfl, rfl⟩⟩

/-- What the call returns for a transfer that comes through. -/
def received (transferType : TransferType) (box : Mailbox) (initMsg : NodeCommMsgFormat) :
    Received where
  err :=
    if sizeMismatch transferType initMsg.totalDataSize then some .RC_NCT_TYPE_SIZE_MISMATCH
    else none
  oData := some (filled ((dataBytes box 1 initMsg.totalDataMsgs).take initMsg.totalDataSize)
    (initMsg.totalDataSize - 8 * initMsg.totalDataMsgs))
  oDataSize := initMsg.totalDataSize

theorem recv_of_initMsg (hrecv : box.recvMessage 0 = some dataRecv)
    (hinit : NodeCommMsgFormat.ofValue dataRecv.toNat = initMsg)
    (hmatch : initiationMismatch myNode sentNode transferType initMsg = false)
    (hsend : box.sendMessage 0 = true) :
    nodeCommTransferRecv myNode sentNode transferType box
      = (recvLoop box initMsg.totalDataMsgs 1 (filled [] initMsg.totalDataSize) 0
          initMsg.totalDataSize).bind fun (err, dataBuffer) =>
        match err with
        | some err => some (.failed err)
        | none =>
          if sizeMismatch transferType initMsg.totalDataSize then
            some ⟨some .RC_NCT_TYPE_SIZE_MISMATCH, some dataBuffer, initMsg.totalDataSize⟩
          else some ⟨none, some dataBuffer, initMsg.totalDataSize⟩ := by
  rw [nodeCommTransferRecv, hrecv]
  simp only [hinit, hmatch, hsend, Bool.false_eq_true, if_false, Bool.not_true]
  rfl

theorem recv_of_completes (h : Completes myNode sentNode transferType box initMsg) :
    nodeCommTransferRecv myNode sentNode transferType box
      = some (received transferType box initMsg) := by
  obtain ⟨hinit, hmatch, hsend, hdata⟩ := h
  obtain ⟨dataRecv, hrecv, hfields⟩ := Option.map_eq_some_iff.mp hinit
  have hloop := recvLoop_of_allThrough _ 1 [] initMsg.totalDataSize hdata
  rw [nil_append, length_nil] at hloop
  rw [recv_of_initMsg hrecv hfields hmatch hsend, hloop, Option.bind_some]
  cases hsize : sizeMismatch transferType initMsg.totalDataSize <;> simp [received, hsize]

theorem recv_of_not_completes
    (h : ∀ initMsg, ¬ Completes myNode sentNode transferType box initMsg) :
    ∃ err, nodeCommTransferRecv myNode sentNode transferType box = some (.failed err) := by
  cases hrecv : box.recvMessage 0 with
  | none => exact ⟨.mailbox, by rw [nodeCommTransferRecv, hrecv]⟩
  | some dataRecv =>
    cases hmatch : initiationMismatch myNode sentNode transferType
        (NodeCommMsgFormat.ofValue dataRecv.toNat) with
    | true =>
      exact ⟨.RC_NCT_INITIATION_MISMATCH, by rw [nodeCommTransferRecv, hrecv]; simp [hmatch]⟩
    | false =>
      cases hsend : box.sendMessage 0 with
      | false =>
        exact ⟨.mailbox, by rw [nodeCommTransferRecv, hrecv]; simp [hmatch, hsend]⟩
      | true =>
        have hdata := fun hdata => h _ ⟨Option.map_eq_some_iff.mpr ⟨dataRecv, hrecv, rfl⟩,
          hmatch, hsend, hdata⟩
        obtain ⟨dataBuffer, hloop⟩ := recvLoop_of_not_allThrough _ 1 []
          (NodeCommMsgFormat.ofValue dataRecv.toNat).totalDataSize hdata
        rw [length_nil] at hloop
        rw [recv_of_initMsg hrecv rfl hmatch hsend, hloop]
        exact ⟨.mailbox, rfl⟩

theorem filled_eq_map {bytes : List UInt8} (h : filled written left = bytes.map some) :
    left = 0 := by
  by_contra hleft
  have hnone : none ∈ filled written left :=
    mem_append_right _ (mem_replicate.mpr ⟨hleft, rfl⟩)
  rw [h] at hnone
  obtain ⟨b, -, hb⟩ := mem_map.mp hnone
  exact Option.some_ne_none b hb

/-- A transfer that comes through keeps the contract when the announced size is the expected one,
and no larger than what the announced messages hold. -/
theorem contract_received (hdata : AllThrough box 1 initMsg.totalDataMsgs) :
    Contract box (received transferType box initMsg) ↔
      sizeMismatch transferType initMsg.totalDataSize = false ∧
        initMsg.totalDataSize ≤ 8 * initMsg.totalDataMsgs := by
  constructor
  · intro h
    cases hsize : sizeMismatch transferType initMsg.totalDataSize with
    | true =>
      have herr : (received transferType box initMsg).err ≠ none := by
        rw [received, if_pos hsize]
        exact Option.some_ne_none _
      exact absurd (h.error herr).1 (Option.some_ne_none _)
    | false =>
      have herr : (received transferType box initMsg).err = none := by
        simp [received, hsize]
      obtain ⟨msgs, bytes, -, -, hbytes⟩ := h.success herr
      have hleft := filled_eq_map (Option.some.inj hbytes)
      exact ⟨rfl, by omega⟩
  · rintro ⟨hsize, hle⟩
    refine ⟨fun _ => ⟨initMsg.totalDataMsgs,
      (dataBytes box 1 initMsg.totalDataMsgs).take initMsg.totalDataSize,
      take_prefix _ _, ?_, ?_⟩, fun h => ?_⟩
    · rw [length_take, length_dataBytes 1 hdata]
      exact Nat.min_eq_left hle
    · rw [received, filled, Nat.sub_eq_zero_of_le hle, replicate_zero, append_nil]
    · simp [received, hsize] at h

/-- The call writes inside its buffer and keeps its contract exactly when a transfer that comes
through announces the expected size, and enough messages for it. -/
theorem contract_iff (myNode sentNode : Nat) (transferType : TransferType) (box : Mailbox) :
    (∃ r, nodeCommTransferRecv myNode sentNode transferType box = some r ∧ Contract box r) ↔
      ∀ initMsg, Completes myNode sentNode transferType box initMsg →
        sizeMismatch transferType initMsg.totalDataSize = false ∧
          initMsg.totalDataSize ≤ 8 * initMsg.totalDataMsgs := by
  by_cases h : ∃ initMsg, Completes myNode sentNode transferType box initMsg
  · obtain ⟨initMsg, hcompletes⟩ := h
    have hunique : ∀ initMsg', Completes myNode sentNode transferType box initMsg' →
        initMsg' = initMsg := fun _ h' => Option.some.inj (h'.1.symm.trans hcompletes.1)
    rw [recv_of_completes hcompletes]
    constructor
    · rintro ⟨r, hr, hcontract⟩ initMsg' h'
      obtain rfl := Option.some.inj hr
      rw [hunique initMsg' h']
      exact (contract_received hcompletes.2.2.2).mp hcontract
    · intro hsizes
      exact ⟨_, rfl, (contract_received hcompletes.2.2.2).mpr (hsizes initMsg hcompletes)⟩
  · obtain ⟨err, hr⟩ := recv_of_not_completes fun initMsg h' => h ⟨initMsg, h'⟩
    refine ⟨fun _ initMsg h' => absurd ⟨initMsg, h'⟩ h, fun _ => ⟨.failed err, hr, ?_⟩⟩
    exact contract_failed err

/-- A peer that sends one message over and over. -/
def Mailbox.always (msg : NodeCommMsgFormat) : Mailbox where
  recvMessage _ := some (UInt64.ofNat msg.value)
  sendMessage _ := true

/-- An id is announced without any data message: eight bytes come back that no one wrote.  A node
synchronisation with eight bytes of data is an error, and the data comes back with it. -/
theorem not_contract :
    (¬ ∃ r, nodeCommTransferRecv 0 1 .NCT_TRANSFER_SBID
      (.always ⟨1, 0, TransferType.code .NCT_TRANSFER_SBID, 0, 0, 8⟩) = some r ∧
      Contract (.always ⟨1, 0, TransferType.code .NCT_TRANSFER_SBID, 0, 0, 8⟩) r) ∧
    ¬ ∃ r, nodeCommTransferRecv 0 1 .NCT_NODE_SYNC
      (.always ⟨1, 0, TransferType.code .NCT_NODE_SYNC, 0, 1, 8⟩) = some r ∧
      Contract (.always ⟨1, 0, TransferType.code .NCT_NODE_SYNC, 0, 1, 8⟩) r := by
  have hsbid : (nodeCommTransferRecv 0 1 .NCT_TRANSFER_SBID
      (.always ⟨1, 0, TransferType.code .NCT_TRANSFER_SBID, 0, 0, 8⟩)).map
        (fun r => (r.err, r.oData)) = some (none, some (filled [] 8)) := by decide
  have hsync : (nodeCommTransferRecv 0 1 .NCT_NODE_SYNC
      (.always ⟨1, 0, TransferType.code .NCT_NODE_SYNC, 0, 1, 8⟩)).map
        (fun r => (r.err, r.oDataSize)) = some (some .RC_NCT_TYPE_SIZE_MISMATCH, 8) := by decide
  constructor
  · rintro ⟨r, hr, hcontract⟩
    rw [hr, Option.map_some, Option.some.injEq, Prod.mk.injEq] at hsbid
    obtain ⟨herr, hdata⟩ := hsbid
    obtain ⟨msgs, bytes, -, -, hbytes⟩ := hcontract.success herr
    exact absurd (filled_eq_map (Option.some.inj (hdata.symm.trans hbytes))) (by decide)
  · rintro ⟨r, hr, hcontract⟩
    rw [hr, Option.map_some, Option.some.injEq, Prod.mk.injEq] at hsync
    obtain ⟨herr, hsize⟩ := hsync
    rw [(hcontract.error (herr ▸ Option.some_ne_none _)).2] at hsize
    exact absurd hsize (by decide)

end Hostboot.NodeComm
