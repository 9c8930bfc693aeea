import Mathlib
import Hostboot.NodeComm.Transfer

/-!
# Both sides of a transfer agree

When both calls of a transfer return without an error, the receiver should
have the data of the sender; and when the sender returns without an error, the
receiver should have acknowledged every data message.

The module has five parts:

* the messages under way are a stretch of a fixed sequence, `pending`;
* the messages and the ACKs of a transfer, by sequence number;
* where each side is once it has read and written so many messages, and the
  invariant of the runs, `Inv`;
* what holds at the end, from the invariant;
* `completed`, a run in which no mailbox call fails, and
  `agreement_iff`, when the two sides agree.

The size has 16 bits in the initiation message.  From 65536 bytes on the
receiver takes the remainder for the size, and both calls succeed.  When not
even the number of messages fits, the receiver stops before the sender does,
and the sender fails.
-/

namespace Hostboot.NodeComm

open Hostboot.Lib List

/-! ## Messages under way -/

/-- The messages from number `j` up to number `k` of a sequence. -/
def pending (f : Nat → Nat) (j k : Nat) : List Nat := (List.range' j (k - j)).map f

theorem pending_push (f : Nat → Nat) {j k : Nat} (h : j ≤ k) :
    pending f j k ++ [f k] = pending f j (k + 1) := by
  unfold pending
  have hlen : k + 1 - j = (k - j) + 1 := by omega
  have hlast : j + (k - j) = k := by omega
  rw [hlen, range'_concat, map_append, Nat.one_mul, hlast]
  rfl

theorem pending_pop {f : Nat → Nat} {j k m : Nat} {rest : List Nat}
    (h : pending f j k = m :: rest) : j < k ∧ m = f j ∧ rest = pending f (j + 1) k := by
  unfold pending at h ⊢
  cases hn : k - j with
  | zero =>
    rw [hn] at h
    cases h
  | succ n =>
    have hrest : k - (j + 1) = n := by omega
    rw [hn, range'_succ, map_cons] at h
    simp only [List.cons.injEq] at h
    rw [hrest]
    exact ⟨by omega, h.1.symm, h.2.symm⟩

/-! ## The messages of a transfer -/

theorem ofValue_value (m : NodeCommMsgFormat) :
    NodeCommMsgFormat.ofValue m.value =
      ⟨m.sendingNode % 2 ^ 4, m.recvingNode % 2 ^ 4, m.msgType % 2 ^ 8, m.msgSeqNum % 2 ^ 16,
        m.totalDataMsgs % 2 ^ 16, m.totalDataSize % 2 ^ 16⟩ := by
  simp only [NodeCommMsgFormat.ofValue, NodeCommMsgFormat.value, NodeCommMsgFormat.mk.injEq]
  refine ⟨?_, ?_, ?_, ?_, ?_, ?_⟩ <;> omega

theorem code_lt (t : TransferType) : t.code < 2 ^ 8 := by
  cases t <;> decide

section Transfer

variable (c : Transfer)

/-- The bytes that the sender has sent before the message `k`. -/
def bytesBefore (k : Nat) : Nat := min (8 * (k - 1)) c.dataSize

/-- The message `k`. -/
def message (k : Nat) : Nat :=
  if k = 0 then initiation c 0 else dataMessage c (bytesBefore c k) (c.dataSize - bytesBefore c k)

/-- The initiation message as the receiver reads it. -/
def announced : NodeCommMsgFormat := .ofValue (initiation c 0)

/-- The bytes that the receiver has read before the message `k`. -/
def bytesGot (k : Nat) : Nat := min (8 * (k - 1)) (announced c).totalDataSize

/-- The ACK of the message `k`. -/
def reply (k : Nat) : Nat :=
  if k = 0 then ackMessage c (announced c) .NCT_ACK_OF_INTIATION 0 0
  else ackMessage c (announced c) .NCT_ACK_OF_DATA k (bytesGot c (k + 1))

theorem bytesGot_one : bytesGot c 1 = 0 := Nat.zero_min _

theorem reply_zero : reply c 0 = ackMessage c (announced c) .NCT_ACK_OF_INTIATION 0 0 :=
  if_pos rfl

theorem reply_of_ne {k : Nat} (hk : k ≠ 0) :
    reply c k = ackMessage c (announced c) .NCT_ACK_OF_DATA k (bytesGot c (k + 1)) :=
  if_neg hk

/-- Both node numbers fit their fields. -/
def Transfer.NodesFit : Prop := c.sendingNode < 2 ^ 4 ∧ c.recvingNode < 2 ^ 4

theorem announced_totalDataMsgs : (announced c).totalDataMsgs = c.totalDataMsgs % 2 ^ 16 := by
  unfold announced initiation
  rw [ofValue_value]

theorem announced_totalDataSize : (announced c).totalDataSize = c.dataSize % 2 ^ 16 := by
  unfold announced initiation
  rw [ofValue_value]

theorem write_eq (k : Nat) :
    Sender.write c k (bytesBefore c k) (c.dataSize - bytesBefore c k) =
      (message c k, .ack k (bytesBefore c (k + 1)) (c.dataSize - bytesBefore c (k + 1))) := by
  unfold Sender.write message
  by_cases hk : k = 0
  · subst hk
    rfl
  · have hsent : bytesBefore c k + loopDataLength (c.dataSize - bytesBefore c k) =
        bytesBefore c (k + 1) := by
      unfold bytesBefore loopDataLength
      split <;> omega
    have hleft : c.dataSize - bytesBefore c k - loopDataLength (c.dataSize - bytesBefore c k) =
        c.dataSize - bytesBefore c (k + 1) := by
      omega
    rw [if_neg hk, if_neg hk, hsent, hleft]

theorem encode_message {k : Nat} (hk : k ≠ 0) :
    Wire.encode 8 (message c k) =
      (c.data.drop (bytesBefore c k)).take (loopDataLength (c.dataSize - bytesBefore c k)) ++
        List.replicate (8 - loopDataLength (c.dataSize - bytesBefore c k)) 0 := by
  unfold message dataMessage
  rw [if_neg hk]
  refine Wire.encode_decode ?_
  have hlen : c.data.length = c.dataSize := rfl
  rw [length_append, length_take, length_drop, length_replicate, hlen]
  unfold loopDataLength
  split <;> omega

theorem take_message {k : Nat} (hk : k ≠ 0) :
    c.data.take (bytesGot c k) ++
        (Wire.encode 8 (message c k)).take
          (loopDataLength ((announced c).totalDataSize - bytesGot c k)) =
      c.data.take (bytesGot c (k + 1)) := by
  have hsize : (announced c).totalDataSize ≤ c.dataSize := by
    rw [announced_totalDataSize]
    exact Nat.mod_le _ _
  have hlen : c.data.length = c.dataSize := rfl
  rw [encode_message c hk]
  by_cases hin : 8 * (k - 1) ≤ (announced c).totalDataSize
  · have hbefore : bytesBefore c k = bytesGot c k := by
      unfold bytesBefore bytesGot
      omega
    have hnext : bytesGot c (k + 1) =
        bytesGot c k + loopDataLength ((announced c).totalDataSize - bytesGot c k) := by
      unfold bytesGot loopDataLength
      split <;> omega
    have hle : loopDataLength ((announced c).totalDataSize - bytesGot c k) ≤
        loopDataLength (c.dataSize - bytesGot c k) := by
      unfold loopDataLength
      split <;> split <;> omega
    have hfits : loopDataLength (c.dataSize - bytesGot c k) ≤ c.dataSize - bytesGot c k := by
      unfold loopDataLength
      split <;> omega
    rw [hbefore, take_append_of_le_length, take_take, Nat.min_eq_left hle, hnext,
      take_add]
    rw [length_take, length_drop, hlen]
    omega
  · have hnone : loopDataLength ((announced c).totalDataSize - bytesGot c k) = 0 := by
      unfold bytesGot loopDataLength
      split <;> omega
    have hsame : bytesGot c (k + 1) = bytesGot c k := by
      unfold bytesGot
      omega
    rw [hnone, hsame, take_zero, append_nil]

theorem left_message {k : Nat} (hk : k ≠ 0) :
    (announced c).totalDataSize - bytesGot c k -
        loopDataLength ((announced c).totalDataSize - bytesGot c k) =
      (announced c).totalDataSize - bytesGot c (k + 1) := by
  unfold bytesGot loopDataLength
  split <;> omega

theorem length_take_bytesGot (k : Nat) : (c.data.take (bytesGot c k)).length = bytesGot c k := by
  have hsize : (announced c).totalDataSize ≤ c.dataSize := by
    rw [announced_totalDataSize]
    exact Nat.mod_le _ _
  have hlen : c.data.length = c.dataSize := rfl
  rw [length_take, hlen]
  unfold bytesGot
  omega

theorem readInit_message :
    Receiver.readInit c (message c 0) =
      if c.sendingNode < 2 ^ 4 ∧ c.recvingNode < 2 ^ 4 then .ackInit (announced c)
      else .done (some .RC_NCT_INITIATION_MISMATCH) [] 0 := by
  have hmsg : message c 0 = initiation c 0 := rfl
  have hcode := code_lt c.transferType
  unfold Receiver.readInit
  rw [hmsg]
  have hfields : NodeCommMsgFormat.ofValue (initiation c 0) =
      ⟨c.sendingNode % 2 ^ 4, c.recvingNode % 2 ^ 4, c.transferType.code % 2 ^ 8, 0 % 2 ^ 16,
        c.totalDataMsgs % 2 ^ 16, c.dataSize % 2 ^ 16⟩ := ofValue_value _
  unfold announced
  rw [hfields]
  dsimp only
  have hiff : ((c.sendingNode % 2 ^ 4 != c.sendingNode) || (c.recvingNode % 2 ^ 4 != c.recvingNode)
      || (c.transferType.code % 2 ^ 8 != c.transferType.code) || (0 % 2 ^ 16 != 0)) = true ↔
      ¬ (c.sendingNode < 2 ^ 4 ∧ c.recvingNode < 2 ^ 4) := by
    simp only [Bool.or_eq_true, bne_iff_ne, ne_eq]
    omega
  by_cases hfit : c.sendingNode < 2 ^ 4 ∧ c.recvingNode < 2 ^ 4
  · rw [if_pos hfit, if_neg (fun h => hiff.mp h hfit)]
  · rw [if_neg hfit, if_pos (hiff.mpr hfit)]

theorem ackMismatch_reply (hfit : c.NodesFit) {k : Nat} (hk : k < 2 ^ 16) :
    ackMismatch c k (reply c k) = false := by
  obtain ⟨hsend, hrecv⟩ := hfit
  unfold ackMismatch reply ackMessage
  by_cases hzero : k = 0
  · subst hzero
    rw [if_pos rfl, if_pos rfl, ofValue_value]
    simp only [Nat.mod_eq_of_lt hsend, Nat.mod_eq_of_lt hrecv]
    simp [TransferType.code]
  · rw [if_neg hzero, if_neg hzero, ofValue_value]
    simp only [Nat.mod_eq_of_lt hsend, Nat.mod_eq_of_lt hrecv, Nat.mod_eq_of_lt hk]
    simp [TransferType.code]

end Transfer

/-! ## The invariant -/

/-- Where the sender is when it has written `k` messages and read `h` ACKs. -/
def SenderAt (c : Transfer) (k h : Nat) : Sender → Prop
  | .send q bytesSent bytesLeft =>
    k = q ∧ h = q ∧ q ≤ c.totalDataMsgs ∧
      bytesSent = bytesBefore c q ∧ bytesLeft = c.dataSize - bytesBefore c q
  | .ack q bytesSent bytesLeft =>
    k = q + 1 ∧ h = q ∧ q ≤ c.totalDataMsgs ∧
      bytesSent = bytesBefore c (q + 1) ∧ bytesLeft = c.dataSize - bytesBefore c (q + 1)
  | .done none => k = c.totalDataMsgs + 1 ∧ h = c.totalDataMsgs + 1
  | .done (some _) => True

/-- Where the receiver is when it has read `j` messages and written `i` ACKs. -/
def ReceiverAt (c : Transfer) (j i : Nat) : Receiver → Prop
  | .init => j = 0 ∧ i = 0
  | .ackInit initMsg => j = 1 ∧ i = 0 ∧ c.NodesFit ∧ initMsg = announced c
  | .data initMsg q dataBuffer bytesLeft =>
    j = q ∧ i = q ∧ q ≠ 0 ∧ q ≤ (announced c).totalDataMsgs ∧ c.NodesFit ∧
      initMsg = announced c ∧ dataBuffer = c.data.take (bytesGot c q) ∧
      bytesLeft = (announced c).totalDataSize - bytesGot c q
  | .ackData initMsg q dataBuffer bytesLeft =>
    j = q + 1 ∧ i = q ∧ q ≠ 0 ∧ q ≤ (announced c).totalDataMsgs ∧ c.NodesFit ∧
      initMsg = announced c ∧ dataBuffer = c.data.take (bytesGot c (q + 1)) ∧
      bytesLeft = (announced c).totalDataSize - bytesGot c (q + 1)
  | .done none oData oDataSize =>
    i = (announced c).totalDataMsgs + 1 ∧ c.NodesFit ∧
      oData = c.data.take (bytesGot c ((announced c).totalDataMsgs + 1)) ∧
      oDataSize = (announced c).totalDataSize
  | .done (some _) _ _ => True

/-- What each side has read is the beginning of what the other has written. -/
def Inv (c : Transfer) (s : State) : Prop :=
  ∃ k h j i, SenderAt c k h s.sender ∧ ReceiverAt c j i s.receiver ∧ j ≤ k ∧ h ≤ i ∧
    s.toReceiver = pending (message c) j k ∧ s.toSender = pending (reply c) h i ∧
    s.acked = List.range' 1 (i - 1)

variable {c : Transfer} {s s' : State}

theorem senderAt_loop {q : Nat} (hq : q ≤ c.totalDataMsgs + 1) :
    SenderAt c q q (.loop c q (bytesBefore c q) (c.dataSize - bytesBefore c q)) := by
  unfold Sender.loop
  split
  · rename_i hle
    exact ⟨rfl, rfl, hle, rfl, rfl⟩
  · have hend : q = c.totalDataMsgs + 1 := by omega
    exact ⟨hend, hend⟩

theorem receiverAt_loop {q : Nat} (hpos : q ≠ 0) (hq : q ≤ (announced c).totalDataMsgs + 1)
    (hfit : c.NodesFit) :
    ReceiverAt c q q (.loop c (announced c) q (c.data.take (bytesGot c q))
      ((announced c).totalDataSize - bytesGot c q)) := by
  unfold Receiver.loop
  split
  · rename_i hle
    exact ⟨rfl, rfl, hpos, hle, hfit, rfl, rfl, rfl⟩
  · have hend : q = (announced c).totalDataMsgs + 1 := by omega
    unfold Receiver.finish
    split
    · trivial
    · subst hend
      exact ⟨rfl, hfit, rfl, rfl⟩

theorem inv_start (c : Transfer) : Inv c (.start c) := by
  refine ⟨0, 0, 0, 0, ?_, ⟨rfl, rfl⟩, Nat.le_refl 0, Nat.le_refl 0, rfl, rfl, rfl⟩
  show SenderAt c 0 0 (Sender.start c)
  unfold Sender.start
  split
  · trivial
  · exact senderAt_loop (Nat.zero_le _)

theorem Inv.stepSender {ok : Bool} (hinv : Inv c s) (hstep : s.stepSender c ok = some s') :
    Inv c s' := by
  obtain ⟨k, h, j, i, hsender, hreceiver, hjk, hhi, hto, hfrom, hacked⟩ := hinv
  unfold State.stepSender at hstep
  cases hs : s.sender with
  | send q bytesSent bytesLeft =>
    rw [hs] at hstep hsender
    obtain ⟨rfl, rfl, hq, rfl, rfl⟩ := hsender
    dsimp only at hstep
    rw [write_eq] at hstep
    split at hstep
    · cases hstep
      refine ⟨h + 1, h, j, i, ⟨rfl, rfl, hq, rfl, rfl⟩, hreceiver, by omega, hhi, ?_, hfrom,
        hacked⟩
      show s.toReceiver ++ [message c h] = _
      rw [hto, pending_push _ hjk]
    · cases hstep
      exact ⟨h, h, j, i, trivial, hreceiver, hjk, hhi, hto, hfrom, hacked⟩
  | ack q bytesSent bytesLeft =>
    rw [hs] at hstep hsender
    obtain ⟨rfl, rfl, hq, rfl, rfl⟩ := hsender
    dsimp only at hstep
    split at hstep
    · split at hstep
      · cases hstep
      · rename_i dataRecv rest hcons
        cases hstep
        rw [hfrom] at hcons
        obtain ⟨hlt, -, hrest⟩ := pending_pop hcons
        refine ⟨h + 1, h + 1, j, i, ?_, hreceiver, hjk, hlt, hto, hrest, hacked⟩
        show SenderAt c (h + 1) (h + 1) (Sender.read c _ _ _ _)
        unfold Sender.read
        split
        · trivial
        · exact senderAt_loop (by omega)
    · cases hstep
      exact ⟨h + 1, h, j, i, trivial, hreceiver, hjk, hhi, hto, hfrom, hacked⟩
  | done err =>
    rw [hs] at hstep
    cases hstep

theorem Inv.stepReceiver {ok : Bool} (hinv : Inv c s) (hstep : s.stepReceiver c ok = some s') :
    Inv c s' := by
  obtain ⟨k, h, j, i, hsender, hreceiver, hjk, hhi, hto, hfrom, hacked⟩ := hinv
  unfold State.stepReceiver at hstep
  cases hr : s.receiver with
  | init =>
    rw [hr] at hstep hreceiver
    obtain ⟨rfl, rfl⟩ := hreceiver
    dsimp only at hstep
    split at hstep
    · split at hstep
      · cases hstep
      · rename_i dataRecv rest hcons
        cases hstep
        rw [hto] at hcons
        obtain ⟨hlt, rfl, hrest⟩ := pending_pop hcons
        refine ⟨k, h, 1, 0, hsender, ?_, hlt, hhi, hrest, hfrom, hacked⟩
        show ReceiverAt c 1 0 (Receiver.readInit c (message c 0))
        rw [readInit_message]
        split
        · rename_i hfit
          exact ⟨rfl, rfl, hfit, rfl⟩
        · trivial
    · cases hstep
      exact ⟨k, h, 0, 0, hsender, trivial, hjk, hhi, hto, hfrom, hacked⟩
  | ackInit initMsg =>
    rw [hr] at hstep hreceiver
    obtain ⟨rfl, rfl, hfit, rfl⟩ := hreceiver
    dsimp only at hstep
    split at hstep
    · cases hstep
      refine ⟨k, h, 1, 1, hsender, ?_, hjk, by omega, hto, ?_, hacked⟩
      · have hfirst := receiverAt_loop Nat.one_ne_zero (by omega) hfit
        rw [bytesGot_one, take_zero, Nat.sub_zero] at hfirst
        exact hfirst
      · show s.toSender ++ [ackMessage c (announced c) _ 0 0] = _
        rw [← reply_zero, hfrom, pending_push _ hhi]
    · cases hstep
      exact ⟨k, h, 1, 0, hsender, trivial, hjk, hhi, hto, hfrom, hacked⟩
  | data initMsg q dataBuffer bytesLeft =>
    rw [hr] at hstep hreceiver
    obtain ⟨rfl, rfl, hpos, hq, hfit, rfl, rfl, rfl⟩ := hreceiver
    dsimp only at hstep
    split at hstep
    · split at hstep
      · cases hstep
      · rename_i dataRecv rest hcons
        cases hstep
        rw [hto] at hcons
        obtain ⟨hlt, rfl, hrest⟩ := pending_pop hcons
        refine ⟨k, h, i + 1, i, hsender, ?_, hlt, hhi, hrest, hfrom, hacked⟩
        show ReceiverAt c (i + 1) i (Receiver.readData _ _ _ _ _)
        unfold Receiver.readData
        exact ⟨rfl, rfl, hpos, hq, hfit, rfl, take_message c hpos, left_message c hpos⟩
    · cases hstep
      exact ⟨k, h, i, i, hsender, trivial, hjk, hhi, hto, hfrom, hacked⟩
  | ackData initMsg q dataBuffer bytesLeft =>
    rw [hr] at hstep hreceiver
    obtain ⟨rfl, rfl, hpos, hq, hfit, rfl, rfl, rfl⟩ := hreceiver
    dsimp only at hstep
    split at hstep
    · cases hstep
      refine ⟨k, h, i + 1, i + 1, hsender, ?_, hjk, by omega, hto, ?_, ?_⟩
      · exact receiverAt_loop (Nat.succ_ne_zero i) (by omega) hfit
      · show s.toSender ++ [ackMessage c (announced c) _ i _] = _
        rw [length_take_bytesGot, ← reply_of_ne c hpos, hfrom, pending_push _ hhi]
      · show s.acked ++ [i] = List.range' 1 (i + 1 - 1)
        have hlen : i + 1 - 1 = (i - 1) + 1 := by omega
        have hlast : 1 + 1 * (i - 1) = i := by omega
        rw [hacked, hlen, range'_concat, hlast]
    · cases hstep
      exact ⟨k, h, i + 1, i, hsender, trivial, hjk, hhi, hto, hfrom, hacked⟩
  | done err oData oDataSize =>
    rw [hr] at hstep
    cases hstep

theorem Inv.step {l : Label} (hinv : Inv c s) (hstep : Step c s l s') : Inv c s' := by
  cases l with
  | sender ok => exact hinv.stepSender hstep
  | receiver ok => exact hinv.stepReceiver hstep

theorem inv_of_run {ls : List Label} (hrun : Run (Step c) (.start c) ls s) : Inv c s :=
  hrun.invariant (inv_start c) fun _ _ _ h hstep => h.step hstep

/-! ## The end of a transfer -/

/-- When both calls return without an error, the data and its size are those of
the sender. -/
def Agrees (c : Transfer) (s : State) : Prop :=
  ∀ oData oDataSize, s.sender = .done none → s.receiver = .done none oData oDataSize →
    oDataSize = c.dataSize ∧ oData = c.data

/-- When the sender returns without an error, the receiver has acknowledged
every data message. -/
def Acknowledged (c : Transfer) (s : State) : Prop :=
  s.sender = .done none → ∀ q, 1 ≤ q → q ≤ c.totalDataMsgs → q ∈ s.acked

theorem Inv.acknowledged (hinv : Inv c s) : Acknowledged c s := by
  obtain ⟨k, h, j, i, hsender, -, -, hhi, -, -, hacked⟩ := hinv
  intro hdone q hpos hq
  rw [hdone] at hsender
  obtain ⟨-, hall⟩ := hsender
  rw [hacked, mem_range'_1]
  omega

/-- What the receiver returns when both sides succeed: the number of messages
fits its field, and the data is cut off at the size that was announced. -/
theorem Inv.received (hinv : Inv c s) {oData : List UInt8} {oDataSize : Nat}
    (hsender : s.sender = .done none) (hreceiver : s.receiver = .done none oData oDataSize) :
    c.NodesFit ∧ c.totalDataMsgs < 2 ^ 16 ∧ oDataSize = c.dataSize % 2 ^ 16 ∧
      oData = c.data.take (c.dataSize % 2 ^ 16) := by
  obtain ⟨k, h, j, i, hs, hr, -, hhi, -, -, -⟩ := hinv
  rw [hsender] at hs
  rw [hreceiver] at hr
  obtain ⟨-, hall⟩ := hs
  obtain ⟨hi, hfit, hdata, hsize⟩ := hr
  rw [announced_totalDataMsgs] at hi
  have hcount : c.totalDataMsgs < 2 ^ 16 := by omega
  have hgot : bytesGot c ((announced c).totalDataMsgs + 1) = c.dataSize % 2 ^ 16 := by
    unfold bytesGot
    rw [announced_totalDataMsgs, announced_totalDataSize]
    unfold Transfer.totalDataMsgs at hcount ⊢
    omega
  rw [announced_totalDataSize] at hsize
  rw [hgot] at hdata
  exact ⟨hfit, hcount, hsize, hdata⟩

/-! ## A transfer without failures -/

/-- Before the message `k`, with nothing under way. -/
def roundState (c : Transfer) (k : Nat) : State where
  sender := .loop c k (bytesBefore c k) (c.dataSize - bytesBefore c k)
  receiver :=
    if k = 0 then .init
    else .loop c (announced c) k (c.data.take (bytesGot c k))
      ((announced c).totalDataSize - bytesGot c k)
  toReceiver := []
  toSender := []
  acked := List.range' 1 (k - 1)

theorem round_receiver (hfit : c.NodesFit) {k : Nat} (hk : k ≤ (announced c).totalDataMsgs)
    (sender : Sender) :
    Run (Step c) ⟨sender, (roundState c k).receiver, [message c k], [], List.range' 1 (k - 1)⟩
      [.receiver true, .receiver true]
      ⟨sender, (roundState c (k + 1)).receiver, [], [reply c k], List.range' 1 k⟩ := by
  have hnext : (roundState c (k + 1)).receiver =
      .loop c (announced c) (k + 1) (c.data.take (bytesGot c (k + 1)))
        ((announced c).totalDataSize - bytesGot c (k + 1)) := by
    unfold roundState
    dsimp only
    rw [if_neg (Nat.succ_ne_zero k)]
  rw [hnext]
  by_cases hzero : k = 0
  · subst hzero
    have hread : Step c ⟨sender, .init, [message c 0], [], []⟩ (.receiver true)
        ⟨sender, .ackInit (announced c), [], [], []⟩ := by
      have hboth : c.sendingNode < 2 ^ 4 ∧ c.recvingNode < 2 ^ 4 := hfit
      have heq := readInit_message c
      rw [if_pos hboth] at heq
      show some (State.mk sender (.readInit c (message c 0)) [] [] []) = _
      rw [heq]
    have hack : Step c ⟨sender, .ackInit (announced c), [], [], []⟩ (.receiver true)
        ⟨sender, .loop c (announced c) 1 (c.data.take (bytesGot c 1))
          ((announced c).totalDataSize - bytesGot c 1), [], [reply c 0], []⟩ := by
      rw [bytesGot_one, take_zero, Nat.sub_zero, reply_zero]
      rfl
    exact .cons hread (.cons hack .nil)
  · have hloop : (roundState c k).receiver =
        .data (announced c) k (c.data.take (bytesGot c k))
          ((announced c).totalDataSize - bytesGot c k) := by
      unfold roundState
      dsimp only
      rw [if_neg hzero, Receiver.loop, if_pos hk]
    have hacked : List.range' 1 k = List.range' 1 (k - 1) ++ [k] := by
      have hlen : k = (k - 1) + 1 := by omega
      have hlast : 1 + 1 * (k - 1) = k := by omega
      conv_lhs => rw [hlen, range'_concat, hlast]
    have hread : Step c ⟨sender, (roundState c k).receiver, [message c k], [],
          List.range' 1 (k - 1)⟩ (.receiver true)
        ⟨sender, .ackData (announced c) k (c.data.take (bytesGot c (k + 1)))
          ((announced c).totalDataSize - bytesGot c (k + 1)), [], [],
          List.range' 1 (k - 1)⟩ := by
      rw [hloop, ← take_message c hzero, ← left_message c hzero]
      rfl
    have hack : Step c ⟨sender, .ackData (announced c) k (c.data.take (bytesGot c (k + 1)))
          ((announced c).totalDataSize - bytesGot c (k + 1)), [], [],
          List.range' 1 (k - 1)⟩ (.receiver true)
        ⟨sender, .loop c (announced c) (k + 1) (c.data.take (bytesGot c (k + 1)))
          ((announced c).totalDataSize - bytesGot c (k + 1)), [], [reply c k],
          List.range' 1 k⟩ := by
      rw [reply_of_ne c hzero, hacked]
      show some (State.mk _ _ _ [ackMessage c _ _ k (c.data.take (bytesGot c (k + 1))).length] _) =
        _
      rw [length_take_bytesGot]
    exact .cons hread (.cons hack .nil)

theorem round_step (hfit : c.NodesFit) (hcount : c.totalDataMsgs < 2 ^ 16) {k : Nat}
    (hk : k ≤ c.totalDataMsgs) :
    Run (Step c) (roundState c k)
      [.sender true, .receiver true, .receiver true, .sender true] (roundState c (k + 1)) := by
  have hall : (announced c).totalDataMsgs = c.totalDataMsgs := by
    rw [announced_totalDataMsgs, Nat.mod_eq_of_lt hcount]
  let waits : Sender := .ack k (bytesBefore c (k + 1)) (c.dataSize - bytesBefore c (k + 1))
  have hsend : Step c (roundState c k) (.sender true)
      ⟨waits, (roundState c k).receiver, [message c k], [], List.range' 1 (k - 1)⟩ := by
    have hloop : (roundState c k).sender =
        .send k (bytesBefore c k) (c.dataSize - bytesBefore c k) := by
      show Sender.loop c k _ _ = _
      rw [Sender.loop, if_pos hk]
    show State.stepSender c _ true = _
    unfold State.stepSender
    rw [hloop]
    dsimp only
    rw [write_eq, if_pos rfl]
    rfl
  have hread : Step c
      ⟨waits, (roundState c (k + 1)).receiver, [], [reply c k], List.range' 1 k⟩ (.sender true)
      (roundState c (k + 1)) := by
    show some (State.mk (Sender.read c k _ _ (reply c k)) _ _ _ _) = _
    unfold Sender.read
    rw [ackMismatch_reply c hfit (by omega)]
    rfl
  exact .cons hsend
    ((round_receiver hfit (by omega) waits).append (.cons hread .nil))

theorem rounds (hfit : c.NodesFit) (hcount : c.totalDataMsgs < 2 ^ 16) {k : Nat}
    (hk : k ≤ c.totalDataMsgs + 1) : ∃ ls, Run (Step c) (roundState c 0) ls (roundState c k) := by
  induction k with
  | zero => exact ⟨[], .nil⟩
  | succ k ih =>
    obtain ⟨ls, hrun⟩ := ih (by omega)
    exact ⟨_, hrun.append (round_step hfit hcount (by omega))⟩

theorem sizeMismatch_mod {t : TransferType} {n : Nat} (h : sizeMismatch t n = false) :
    sizeMismatch t (n % 2 ^ 16) = false := by
  unfold sizeMismatch at h ⊢
  split at h
  · rename_i transferSize hmap
    have hsmall : transferSize < 2 ^ 16 := by
      cases t <;> simp only [TransferSizeMap, quoteRequestBlobSize] at hmap <;> cases hmap <;>
        decide
    have heq : transferSize = n := by simpa using h
    rw [← heq, Nat.mod_eq_of_lt hsmall]
    simp
  · rfl

theorem totalDataMsgs_lt (h : c.dataSize ≤ 8 * (2 ^ 16 - 1)) : c.totalDataMsgs < 2 ^ 16 := by
  unfold Transfer.totalDataMsgs
  omega

/-- When no mailbox call fails and the number of messages fits, both calls
return without an error. -/
theorem completed (haccept : sizeMismatch c.transferType c.dataSize = false) (hfit : c.NodesFit)
    (hcount : c.totalDataMsgs < 2 ^ 16) :
    ∃ ls s oData, Run (Step c) (.start c) ls s ∧ s.sender = .done none ∧
      s.receiver = .done none oData (c.dataSize % 2 ^ 16) := by
  have hstart : State.start c = roundState c 0 := by
    unfold State.start Sender.start
    rw [haccept]
    rfl
  have hall : (announced c).totalDataMsgs = c.totalDataMsgs := by
    rw [announced_totalDataMsgs, Nat.mod_eq_of_lt hcount]
  obtain ⟨ls, hrun⟩ := rounds hfit hcount (Nat.le_refl (c.totalDataMsgs + 1))
  refine ⟨ls, _, c.data.take (bytesGot c (c.totalDataMsgs + 1)), hstart ▸ hrun, ?_, ?_⟩
  · show Sender.loop c _ _ _ = _
    rw [Sender.loop, if_neg (by omega)]
  · unfold roundState
    dsimp only
    rw [if_neg (Nat.succ_ne_zero _), Receiver.loop, if_neg (by omega), Receiver.finish,
      announced_totalDataSize, sizeMismatch_mod haccept]
    rfl

/-! ## When the two sides agree -/

/-- For data whose size the sender accepts, the two sides agree in every run
exactly when the size fits its field, or no run ends with success on both
sides: the number of messages or a node number does not fit. -/
theorem agreement_iff (c : Transfer)
    (haccept : sizeMismatch c.transferType c.dataSize = false) :
    (∀ ls s, Run (Step c) (.start c) ls s → Agrees c s ∧ Acknowledged c s) ↔
      c.dataSize < 2 ^ 16 ∨ 8 * (2 ^ 16 - 1) < c.dataSize ∨
        2 ^ 4 ≤ c.sendingNode ∨ 2 ^ 4 ≤ c.recvingNode := by
  constructor
  · intro hagree
    by_contra hnot
    have hfit : c.NodesFit := by
      unfold Transfer.NodesFit
      omega
    have hcount : c.totalDataMsgs < 2 ^ 16 := totalDataMsgs_lt (by omega)
    obtain ⟨ls, s, oData, hrun, hsender, hreceiver⟩ := completed haccept hfit hcount
    have hsize := ((hagree ls s hrun).1 oData _ hsender hreceiver).1
    omega
  · intro hcond ls s hrun
    have hinv := inv_of_run hrun
    refine ⟨?_, hinv.acknowledged⟩
    intro oData oDataSize hsender hreceiver
    obtain ⟨hfit, hcount, hsize, hdata⟩ := hinv.received hsender hreceiver
    have hsmall : c.dataSize < 2 ^ 16 := by
      unfold Transfer.NodesFit at hfit
      unfold Transfer.totalDataMsgs at hcount
      omega
    rw [Nat.mod_eq_of_lt hsmall] at hsize hdata
    rw [hdata]
    exact ⟨hsize, take_length⟩

/-- A quote response of three bytes. -/
def smallResponse : Transfer := ⟨0, 1, .NCT_TRANSFER_QUOTE_RESPONSE, [1, 2, 3]⟩

theorem agreement_iff_small :
    sizeMismatch smallResponse.transferType smallResponse.dataSize = false ∧
      ∀ ls s, Run (Step smallResponse) (.start smallResponse) ls s →
        Agrees smallResponse s ∧ Acknowledged smallResponse s :=
  ⟨rfl, (agreement_iff smallResponse rfl).mpr (.inl (by decide))⟩

/-- A quote response of 65536 bytes. -/
def largeResponse : Transfer :=
  ⟨0, 1, .NCT_TRANSFER_QUOTE_RESPONSE, List.replicate 65536 0⟩

/-- A quote response of 65536 bytes arrives without an error as no bytes at
all. -/
theorem not_agrees_large :
    sizeMismatch largeResponse.transferType largeResponse.dataSize = false ∧
      ∃ ls s, Run (Step largeResponse) (.start largeResponse) ls s ∧
        s.sender = .done none ∧ (∃ oData, s.receiver = .done none oData 0) ∧
        ¬ Agrees largeResponse s := by
  have hsize : largeResponse.dataSize = 65536 := length_replicate
  have haccept : sizeMismatch largeResponse.transferType largeResponse.dataSize = false := by
    rw [hsize]
    rfl
  have hfit : largeResponse.NodesFit := ⟨by decide, by decide⟩
  have hcount : largeResponse.totalDataMsgs < 2 ^ 16 := totalDataMsgs_lt (by omega)
  obtain ⟨ls, s, oData, hrun, hsender, hreceiver⟩ := completed haccept hfit hcount
  rw [hsize] at hreceiver
  refine ⟨haccept, ls, s, hrun, hsender, ⟨oData, hreceiver⟩, ?_⟩
  intro hagree
  have heq := (hagree oData _ hsender hreceiver).1
  rw [hsize] at heq
  omega

end Hostboot.NodeComm
