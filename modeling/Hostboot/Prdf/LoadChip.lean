import Hostboot.Prdf.RuleFile

/-!
# The loader of rule files

`ReadExpr`, `ReadString`, `prdrReadBitString` and `LoadChip` as readers of a
byte stream.  `UtilStream::operator>>` copies as many bytes as the target has,
so a read of an entry of the union array takes eight bytes: the integer is the
first four of them, and the others are the rest of the pointer.

The recursion of `ReadExpr` takes at least one byte before each further call.
The length of the stream therefore bounds its depth, and `ReadExpr` starts
`readExpr` with it.
-/

namespace Hostboot.Prdf

open Lib Wire Reader

/-! ## Fields -/

def read16 : Reader UInt16 := UInt16.ofNat <$> word 2

def read32 : Reader UInt32 := UInt32.ofNat <$> word 4

def read64 : Reader UInt64 := UInt64.ofNat <$> word 8

/-- An integer field of a node. -/
def readInt : Reader Value := Value.i <$> read32

/-- A whole entry of the union array: the integer, then the other half of the
pointer. -/
def readUnion : Reader Value := do
  let v ← readInt
  let _ ← word 4
  pure v

/-- The characters before the next zero. -/
def takeString : Bytes → Option (Str × Bytes)
  | [] => none
  | c :: bs =>
    if c = 0 then some ([], bs)
    else
      match takeString bs with
      | some (s, rest) => some (c :: s, rest)
      | none => none

/-- `ReadString`: the buffer has room for 99 characters and the zero. -/
def readString : Reader Str := fun bs =>
  match takeString bs with
  | some (s, rest) => if s.length < 100 then some (s, rest) else none
  | none => none

/-- `prdrReadBitString`: the length is in bits, and whole words are read. -/
def readBitString : Reader (List UInt64) := do
  let l ← byte
  let length := l.toNat / 8 + if l.toNat % 8 ≠ 0 then 1 else 0
  read64.times (length / 8)

/-! ## `ReadExpr` -/

/-- Assign an entry of the union array, which has seven. -/
def store (vs : Fin 7 → Value) (k : Nat) (v : Value) : Reader (Fin 7 → Value) :=
  if h : k < 7 then pure (Function.update vs ⟨k, h⟩ v) else fail

/-- The count of a policy and its entry. -/
def readFreq (i : Nat) (vs : Fin 7 → Value) : Reader (Fin 7 → Value) := do
  let freq ← byte
  store vs (2 * i) (.i freq.toUInt32)

/-- The loop over the policies of a threshold.  The second one has no count of
its own when the manufacturing policy is named. -/
def readPolicies (named : Bool) : Nat → Nat → (Fin 7 → Value) → Reader (Fin 7 → Value)
  | 0, _, vs => pure vs
  | k + 1, i, vs => do
    let vs ← optional (i ≠ 1 ∨ named = false) (readFreq i vs) vs
    let time ← readInt
    let vs ← store vs (2 * i + 1) time
    readPolicies named k (i + 1) vs

/-- The shared id of a threshold: it is read as a whole union entry. -/
def readShared (vs : Fin 7 → Value) : Reader (Fin 7 → Value) := do
  let id ← readUnion
  store vs 5 id

/-- The entries before the policies are read: the defaults, and whether the
manufacturing policy is named. -/
def defaultPolicies (named : Bool) : Fin 7 → Value :=
  Value.array [.i fieldDefault.1, .i fieldDefault.2, .i mnfgDefault.1, .i mnfgDefault.2,
    .i (if named then 1 else 0)]

/-- The entries of a threshold node. -/
def readThresh : Reader (Fin 7 → Value) := do
  let flags ← byte
  let shared : Bool := flags &&& 0x40 = 0x40
  let flags := flags &&& ~~~0x40
  let named : Bool := flags &&& 0x20 = 0x20
  let flags := flags &&& ~~~0x20
  let vs ← readPolicies named flags.toNat 0 (defaultPolicies named)
  optional (shared = true) (readShared vs) vs

/-- The arguments of a callout that is not for the chip itself. -/
def readCalloutArgs (read : Reader Value) : Reader (List Value) := do
  let arg ← readInt
  let index ← readInt
  let hasAlt ← byte
  let alt ← optional (hasAlt ≠ 0) read (.i 0)
  let peer ← readInt
  pure [arg, index, alt, peer]

/-- The entries of a callout node. -/
def readCallout (read : Reader Value) : Reader (List Value) := do
  let type ← byte
  let priority ← readInt
  let args ← optional (type ≠ CalloutType.gardSelf.toChar) (readCalloutArgs read)
    [.i 0, .i 0, .i 0, .i 0]
  let state ← byte
  pure (.i type.toUInt32 :: priority :: (args ++ [.i state.toUInt32]))

/-- The loop over the operands of an attention link, each after its index. -/
def readLinks (read : Reader Value) : Nat → (Fin 7 → Value) → Reader (Fin 7 → Value)
  | 0, vs => pure vs
  | k + 1, vs => do
    let index ← byte
    let v ← read
    let vs ← store vs index.toNat v
    readLinks read k vs

/-- The switch of `ReadExpr` over the kind of the node, with the reader of the
nodes below. -/
def readBody (read : Reader Value) (cvOp : UInt8) : Reader Value :=
  match ExprOps.ofChar cvOp with
  | some .and | some .or | some .xor | some .lshift | some .rshift | some .summary
  | some .actTry => do
    let l ← read
    let r ← read
    pure (.node cvOp [l, r])
  | some .not => do
    let e ← read
    pure (.node cvOp [e])
  | some .integer | some .actFlag | some .actDump | some .actCapt => do
    let v ← readInt
    pure (.node cvOp [v])
  | some .refRule | some .refReg | some .refGrp | some .refAct | some .intShort => do
    let v ← read16
    pure (.node cvOp [.i v.toUInt32])
  | some .bitStr => do
    let ws ← readBitString
    pure (.p cvOp (Value.array []) none ws)
  | some .actThres => do
    let vs ← readThresh
    pure (.p cvOp vs none [])
  | some .actAnaly => do
    let type ← readInt
    let index ← readInt
    pure (.node cvOp [type, index])
  | some .actFunc => do
    let func ← readString
    let chip ← readInt
    pure (.p cvOp (Value.array [.i 0, chip]) (some func) [])
  | some .actCall => do
    let vs ← readCallout read
    pure (.node cvOp vs)
  | some .attnlink => do
    let count ← byte
    let vs ← readLinks read count.toNat (Value.array [])
    pure (.p cvOp vs none [])
  | _ => pure (.node cvOp [])

attribute [grind =] readBody

/-- `ReadExpr`, with a bound on the depth of the calls. -/
def readExpr : Nat → Reader Value
  | 0 => fail
  | n + 1 => do
    let cvOp ← byte
    readBody (readExpr n) cvOp

def ReadExpr : Reader Value := fun bs => readExpr bs.length bs

/-! ## `LoadChip` -/

/-- The extraction of a `ResetOrMaskStruct`. -/
def readReset : Reader ResetOrMaskStruct := do
  let type ← byte
  let addrR ← read64
  let addrW ← read64
  pure ⟨type, addrR, addrW⟩

/-- How many words follow a capture type. -/
def captureWords (op : UInt8) : Nat :=
  if op = CaptureType.groupid.toChar ∨ op = CaptureType.type.toChar ∨
      op = CaptureType.nonzero.toChar then 1
  else if op = CaptureType.conn.toChar then 2
  else 0

/-- The extraction of a `CaptureInfoStruct`. -/
def readCapture : Reader CaptureInfoStruct := do
  let op ← byte
  let data ← read32.times (captureWords op)
  let func ← optional (op = CaptureType.func.toChar) (some <$> readString) none
  pure ⟨op, data, func⟩

/-- A count of 16 bits and that many values. -/
def counted {α : Type} (p : Reader α) : Reader (List α) := do
  let n ← read16
  p.times n.toNat

/-- A counted list that only stands there when its flag is set. -/
def flagged {α : Type} (flags flag : UInt32) (p : Reader α) : Reader (List α) :=
  optional (flags &&& flag ≠ 0) (counted p) []

/-- The loop body of `LoadChip` for a register. -/
def readRegister (scomLen : UInt16) : Reader LoadedRegister := do
  let name ← read16
  let flags ← read32
  let addr ← read64
  let len ← optional (flags &&& PRDR_REGISTER_SCOMLEN ≠ 0) read16 scomLen
  let resets ← flagged flags PRDR_REGISTER_RESETS readReset
  let masks ← flagged flags PRDR_REGISTER_MASKS readReset
  let captures ← flagged flags PRDR_REGISTER_CAPTURE readCapture
  pure ⟨name, flags, addr, len, resets, masks, captures⟩

/-- The loop body of `LoadChip` for a rule: the character `R` is not looked
at. -/
def readRule : Reader Value := do
  let _ ← byte
  ReadExpr

/-- The loop body of `LoadChip` for a line of a group: the two nodes after the
reference to a rule are its bits and its action. -/
def readLine : Reader Value := do
  let line ← ReadExpr
  match line with
  | .p op vs func ws =>
    if op = ExprOps.refRule.toChar then do
      let bits ← ReadExpr
      let action ← ReadExpr
      pure (.p op (Function.update (Function.update vs 1 bits) 2 action) func ws)
    else pure line
  | .i _ => pure line

/-- The loop body of `LoadChip` for a group. -/
def readGroup : Reader LoadedGroup := do
  let _ ← byte
  let size ← read16
  let flags ← byte
  let priority ← optional (PRDR_GROUP_FILTER_PRIORITY &&& flags ≠ 0) ReadExpr (.i 0)
  let rootCause ← optional (PRDR_GROUP_FILTER_CS_ROOT_CAUSE &&& flags ≠ 0) ReadExpr (.i 0)
  let lines ← readLine.times size.toNat
  pure ⟨flags, priority, rootCause, lines⟩

/-- The loop body of `LoadChip` for an action class. -/
def readAction : Reader (List Value) := do
  let _ ← byte
  counted ReadExpr

def LoadChip : Reader LoadedChip := do
  let temp ← byte.times 8
  if temp ≠ header then fail
  else
    let chipId ← read32
    let targetType ← read32
    let signatureOffset ← read32
    let dumpType ← read32
    let scomLen ← read16
    let registers ← counted (readRegister scomLen)
    let rules ← counted readRule
    let groupCount ← read16
    let groupAttn ← read16.times 5
    let groups ← readGroup.times groupCount.toNat
    let actions ← counted readAction
    pure ⟨chipId, targetType, signatureOffset, dumpType, scomLen, registers, rules, groupAttn,
      groups, actions⟩

end Hostboot.Prdf
