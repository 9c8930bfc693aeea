import Hostboot.Lib.Run
import Hostboot.Lib.Wire

/-!
# Node to node transfers

`nodeCommTransferSend` and `nodeCommTransferRecv` of
`src/usr/secureboot/node_comm/node_comm_transfer.C` move a block of data from
one node to another over a mailbox of 8-byte messages.  The first message
announces the number of data messages and the size.  The data messages follow,
8 bytes in each, and the receiver answers every message with an ACK.

The two calls run at the same time on two nodes.  A state holds where each of
them is, and the messages under way in both directions.  A step is the next
mailbox call of one side, `nodeCommSendMessage` or `nodeCommRecvMessage`, with
the code up to the call behind it.  A mailbox call can fail at any time, for a
timeout or a bad link; a receive that does not fail takes the oldest message.
The mailbox delivers each message once and in order, and a write that fails
delivers nothing.

A message is its 64-bit value.  Bit fields are laid out from the most
significant bit on, as on the big-endian machine, and a write to one truncates.
Sizes are natural numbers: a block of memory is far shorter than `2 ^ 64`.
`acked` is a ghost: the data messages that the receiver has acknowledged.
-/

namespace Hostboot.NodeComm

open Hostboot.Lib

/-! ## Messages -/

/-- `node_comm_transfer_types_t`. -/
inductive TransferType where
  | NCT_INVALID_TYPE
  | NCT_ACK_OF_INTIATION
  | NCT_ACK_OF_DATA
  | NCT_TRANSFER_SBID
  | NCT_TRANSFER_QUOTE_REQUEST
  | NCT_TRANSFER_QUOTE_RESPONSE
  | NCT_NODE_SYNC
  deriving DecidableEq, Repr

/-- The value of a transfer type in a message. -/
def TransferType.code : TransferType → Nat
  | .NCT_INVALID_TYPE => 0x00
  | .NCT_ACK_OF_INTIATION => 0x01
  | .NCT_ACK_OF_DATA => 0x02
  | .NCT_TRANSFER_SBID => 0x10
  | .NCT_TRANSFER_QUOTE_REQUEST => 0x11
  | .NCT_TRANSFER_QUOTE_RESPONSE => 0x12
  | .NCT_NODE_SYNC => 0x13

/-- `sizeof(QuoteRequestBlob)`: the eye catcher, the nonce and the selection of
PCRs, packed. -/
def quoteRequestBlobSize : Nat := 8 + 32 + (4 + 6)

def TransferSizeMap : TransferType → Option Nat
  | .NCT_TRANSFER_SBID => some 8
  | .NCT_TRANSFER_QUOTE_REQUEST => some quoteRequestBlobSize
  | .NCT_NODE_SYNC => some 0
  | _ => none

/-- The check of a size against `TransferSizeMap`. -/
def sizeMismatch (transferType : TransferType) (dataSize : Nat) : Bool :=
  match TransferSizeMap transferType with
  | some transferSize => transferSize != dataSize
  | none => false

/-- The fields of `node_comm_msg_format_t`. -/
structure NodeCommMsgFormat where
  sendingNode : Nat
  recvingNode : Nat
  msgType : Nat
  msgSeqNum : Nat
  totalDataMsgs : Nat
  totalDataSize : Nat
  deriving DecidableEq, Repr

namespace NodeCommMsgFormat

/-- The message with these fields. -/
def value (m : NodeCommMsgFormat) : Nat :=
  m.sendingNode % 2 ^ 4 * 2 ^ 60 + m.recvingNode % 2 ^ 4 * 2 ^ 56 + m.msgType % 2 ^ 8 * 2 ^ 48 +
    m.msgSeqNum % 2 ^ 16 * 2 ^ 32 + m.totalDataMsgs % 2 ^ 16 * 2 ^ 16 + m.totalDataSize % 2 ^ 16

/-- The fields of a message. -/
def ofValue (v : Nat) : NodeCommMsgFormat where
  sendingNode := v / 2 ^ 60 % 2 ^ 4
  recvingNode := v / 2 ^ 56 % 2 ^ 4
  msgType := v / 2 ^ 48 % 2 ^ 8
  msgSeqNum := v / 2 ^ 32 % 2 ^ 16
  totalDataMsgs := v / 2 ^ 16 % 2 ^ 16
  totalDataSize := v % 2 ^ 16

end NodeCommMsgFormat

/-- The errors of the two calls.  `mailbox` is what a mailbox call returned. -/
inductive ReasonCode where
  | RC_NCT_TYPE_SIZE_MISMATCH
  | RC_NCT_ACK_MISMATCH
  | RC_NCT_INITIATION_MISMATCH
  | mailbox
  deriving DecidableEq, Repr

/-- The arguments on which the two calls agree: the nodes, the type and the
data of the sender. -/
structure Transfer where
  sendingNode : Nat
  recvingNode : Nat
  transferType : TransferType
  data : List UInt8
  deriving DecidableEq, Repr

/-- `i_dataSize`. -/
def Transfer.dataSize (c : Transfer) : Nat := c.data.length

/-- `total_data_msgs` of the sender. -/
def Transfer.totalDataMsgs (c : Transfer) : Nat := (c.dataSize + 7) / 8

/-- The bytes that one data message carries. -/
def loopDataLength (bytesLeft : Nat) : Nat := if bytesLeft > 8 then 8 else bytesLeft

/-! ## The sender -/

/-- Where `nodeCommTransferSend` is. -/
inductive Sender where
  /-- Before the write of the message `msgSeq`. -/
  | send (msgSeq bytesSent bytesLeft : Nat)
  /-- Before the read of its ACK. -/
  | ack (msgSeq bytesSent bytesLeft : Nat)
  | done (err : Option ReasonCode)
  deriving DecidableEq, Repr

/-- The head of the loop. -/
def Sender.loop (c : Transfer) (msgSeq bytesSent bytesLeft : Nat) : Sender :=
  if msgSeq ≤ c.totalDataMsgs then .send msgSeq bytesSent bytesLeft else .done none

/-- The start of `nodeCommTransferSend`. -/
def Sender.start (c : Transfer) : Sender :=
  if sizeMismatch c.transferType c.dataSize then .done (some .RC_NCT_TYPE_SIZE_MISMATCH)
  else .loop c 0 0 c.dataSize

/-- The initiation message. -/
def initiation (c : Transfer) (msgSeq : Nat) : Nat :=
  NodeCommMsgFormat.value
    { sendingNode := c.sendingNode
      recvingNode := c.recvingNode
      msgType := c.transferType.code
      msgSeqNum := msgSeq
      totalDataMsgs := c.totalDataMsgs
      totalDataSize := c.dataSize }

/-- The value of a data message. -/
def dataMessage (c : Transfer) (bytesSent bytesLeft : Nat) : Nat :=
  Wire.decode ((c.data.drop bytesSent).take (loopDataLength bytesLeft) ++
    List.replicate (8 - loopDataLength bytesLeft) 0)

/-- The message of a round of the loop, with the sender behind its write. -/
def Sender.write (c : Transfer) (msgSeq bytesSent bytesLeft : Nat) : Nat × Sender :=
  if msgSeq = 0 then (initiation c msgSeq, .ack msgSeq bytesSent bytesLeft)
  else
    (dataMessage c bytesSent bytesLeft,
      .ack msgSeq (bytesSent + loopDataLength bytesLeft) (bytesLeft - loopDataLength bytesLeft))

/-- The check of an ACK. -/
def ackMismatch (c : Transfer) (msgSeq dataRecv : Nat) : Bool :=
  let ackMsg := NodeCommMsgFormat.ofValue dataRecv
  let expected : TransferType :=
    if msgSeq = 0 then .NCT_ACK_OF_INTIATION else .NCT_ACK_OF_DATA
  ackMsg.sendingNode != c.recvingNode || ackMsg.recvingNode != c.sendingNode ||
    ackMsg.msgType != expected.code || ackMsg.msgSeqNum != msgSeq

/-- The sender behind the read of an ACK. -/
def Sender.read (c : Transfer) (msgSeq bytesSent bytesLeft dataRecv : Nat) : Sender :=
  if ackMismatch c msgSeq dataRecv then .done (some .RC_NCT_ACK_MISMATCH)
  else .loop c (msgSeq + 1) bytesSent bytesLeft

/-! ## The receiver -/

/-- Where `nodeCommTransferRecv` is.  `bytes_read` is the length of the
buffer. -/
inductive Receiver where
  /-- Before the read of the initiation message. -/
  | init
  /-- Before the write of its ACK. -/
  | ackInit (initMsg : NodeCommMsgFormat)
  /-- Before the read of the data message `msgSeq`. -/
  | data (initMsg : NodeCommMsgFormat) (msgSeq : Nat) (dataBuffer : List UInt8) (bytesLeft : Nat)
  /-- Before the write of its ACK. -/
  | ackData (initMsg : NodeCommMsgFormat) (msgSeq : Nat) (dataBuffer : List UInt8)
      (bytesLeft : Nat)
  | done (err : Option ReasonCode) (oData : List UInt8) (oDataSize : Nat)
  deriving DecidableEq, Repr

/-- A return with an error of the mailbox. -/
def Receiver.failed : Receiver := .done (some .mailbox) [] 0

/-- The receiver behind the read of the initiation message. -/
def Receiver.readInit (c : Transfer) (dataRecv : Nat) : Receiver :=
  let initMsg := NodeCommMsgFormat.ofValue dataRecv
  if initMsg.sendingNode != c.sendingNode || initMsg.recvingNode != c.recvingNode ||
      initMsg.msgType != c.transferType.code || initMsg.msgSeqNum != 0 then
    .done (some .RC_NCT_INITIATION_MISMATCH) [] 0
  else .ackInit initMsg

/-- The ACK of the message `msgSeq`. -/
def ackMessage (c : Transfer) (initMsg : NodeCommMsgFormat) (msgType : TransferType)
    (msgSeq bytesRead : Nat) : Nat :=
  NodeCommMsgFormat.value
    { sendingNode := c.recvingNode
      recvingNode := c.sendingNode
      msgType := msgType.code
      msgSeqNum := msgSeq
      totalDataMsgs := initMsg.totalDataMsgs
      totalDataSize := bytesRead }

/-- The end of `nodeCommTransferRecv`. -/
def Receiver.finish (c : Transfer) (initMsg : NodeCommMsgFormat) (dataBuffer : List UInt8) :
    Receiver :=
  if sizeMismatch c.transferType initMsg.totalDataSize then
    .done (some .RC_NCT_TYPE_SIZE_MISMATCH) dataBuffer initMsg.totalDataSize
  else .done none dataBuffer initMsg.totalDataSize

/-- The head of the loop. -/
def Receiver.loop (c : Transfer) (initMsg : NodeCommMsgFormat) (msgSeq : Nat)
    (dataBuffer : List UInt8) (bytesLeft : Nat) : Receiver :=
  if msgSeq ≤ initMsg.totalDataMsgs then .data initMsg msgSeq dataBuffer bytesLeft
  else .finish c initMsg dataBuffer

/-- The receiver behind the read of a data message. -/
def Receiver.readData (initMsg : NodeCommMsgFormat) (msgSeq : Nat) (dataBuffer : List UInt8)
    (bytesLeft dataRecv : Nat) : Receiver :=
  .ackData initMsg msgSeq
    (dataBuffer ++ (Wire.encode 8 dataRecv).take (loopDataLength bytesLeft))
    (bytesLeft - loopDataLength bytesLeft)

/-! ## The two sides -/

/-- The two calls and the messages under way. -/
structure State where
  sender : Sender
  receiver : Receiver
  toReceiver : List Nat
  toSender : List Nat
  /-- The data messages that the receiver has acknowledged. -/
  acked : List Nat
  deriving DecidableEq, Repr

/-- The start of a transfer. -/
def State.start (c : Transfer) : State := ⟨.start c, .init, [], [], []⟩

/-- Which side makes its next mailbox call, and whether the call succeeds. -/
inductive Label where
  | sender (ok : Bool)
  | receiver (ok : Bool)
  deriving DecidableEq, Repr

/-- The next mailbox call of the sender.  A read waits for a message. -/
def State.stepSender (c : Transfer) (s : State) (ok : Bool) : Option State :=
  match s.sender with
  | .send msgSeq bytesSent bytesLeft =>
    if ok then
      let r := Sender.write c msgSeq bytesSent bytesLeft
      some { s with sender := r.2, toReceiver := s.toReceiver ++ [r.1] }
    else some { s with sender := .done (some .mailbox) }
  | .ack msgSeq bytesSent bytesLeft =>
    if ok then
      match s.toSender with
      | [] => none
      | dataRecv :: rest =>
        some { s with
          sender := .read c msgSeq bytesSent bytesLeft dataRecv
          toSender := rest }
    else some { s with sender := .done (some .mailbox) }
  | .done _ => none

/-- The next mailbox call of the receiver. -/
def State.stepReceiver (c : Transfer) (s : State) (ok : Bool) : Option State :=
  match s.receiver with
  | .init =>
    if ok then
      match s.toReceiver with
      | [] => none
      | dataRecv :: rest =>
        some { s with receiver := .readInit c dataRecv, toReceiver := rest }
    else some { s with receiver := .failed }
  | .ackInit initMsg =>
    if ok then
      some { s with
        receiver := .loop c initMsg 1 [] initMsg.totalDataSize
        toSender := s.toSender ++ [ackMessage c initMsg .NCT_ACK_OF_INTIATION 0 0] }
    else some { s with receiver := .failed }
  | .data initMsg msgSeq dataBuffer bytesLeft =>
    if ok then
      match s.toReceiver with
      | [] => none
      | dataRecv :: rest =>
        some { s with
          receiver := .readData initMsg msgSeq dataBuffer bytesLeft dataRecv
          toReceiver := rest }
    else some { s with receiver := .failed }
  | .ackData initMsg msgSeq dataBuffer bytesLeft =>
    if ok then
      some { s with
        receiver := .loop c initMsg (msgSeq + 1) dataBuffer bytesLeft
        toSender := s.toSender ++
          [ackMessage c initMsg .NCT_ACK_OF_DATA msgSeq dataBuffer.length]
        acked := s.acked ++ [msgSeq] }
    else some { s with receiver := .failed }
  | .done _ _ _ => none

/-- One mailbox call. -/
def State.step (c : Transfer) (s : State) : Label → Option State
  | .sender ok => s.stepSender c ok
  | .receiver ok => s.stepReceiver c ok

/-- One mailbox call, as a relation. -/
def Step (c : Transfer) (s : State) (l : Label) (s' : State) : Prop := s.step c l = some s'

end Hostboot.NodeComm
