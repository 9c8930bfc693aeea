import Hostboot.Prdf.Expr

/-!
# The rule file: registers, groups, action classes and the chip

The compiler writes one file for a chip: the header, the registers, the rules,
the bit groups and the action classes, each as a count and that many entries.
This module holds the compiler's side, `output` of each class, and beside each
of them the record that a faithful loader holds for it.

`hashString` is the 16-bit hash of a register's name.  It stands in the file
for the name, and both programs report signatures by it.
-/

namespace Hostboot.Prdf

open Lib Wire

/-! ## The hash of a name -/

/-- The sums of `Util::hashString`: `sumA` and `sumB` over the two-byte chunks
of the string, the last one filled with a zero.  A string of even length ends
with a chunk of zeros. -/
def hashSums : Str → UInt32 × UInt32 → UInt32 × UInt32
  | [], (sumA, sumB) => (sumA, sumB + sumA)
  | [c], (sumA, sumB) =>
    let sumA := sumA + (c.toUInt32 <<< 8)
    (sumA, sumB + sumA)
  | c :: d :: s, (sumA, sumB) =>
    let sumA := sumA + ((c.toUInt32 <<< 8) ||| d.toUInt32)
    hashSums s (sumA, sumB + sumA)

/-- `Util::hashString`, whose callers keep 16 bits. -/
def hashString (s : Str) : UInt16 := (hashSums s (0, 0)).2.toUInt16

/-! ## Registers -/

/-- `ResetOrMaskStruct`, the same on both sides. -/
structure ResetOrMaskStruct where
  type : UInt8
  addrR : UInt64
  addrW : UInt64
  deriving DecidableEq, Repr

def ResetOrMaskStruct.output (r : ResetOrMaskStruct) : Bytes :=
  r.type :: (out64 r.addrR ++ out64 r.addrW)

/-- The type of a capture statement. -/
inductive CaptureType
  | groupid | conn | func | type | nonzero
  deriving DecidableEq, Repr

/-- The character of a capture type. -/
def CaptureType.toChar : CaptureType → UInt8
  | groupid => 0x47
  | conn => 0x43
  | func => 0x66
  | type => 0x54
  | nonzero => 0x50

structure CaptureReqStruct where
  type : CaptureType
  data0 : UInt32
  data1 : UInt32
  str : Str
  deriving DecidableEq, Repr

def CaptureReqStruct.output (c : CaptureReqStruct) : Bytes :=
  c.type.toChar ::
    match c.type with
    | .groupid => out32 c.data0
    | .type => out32 c.data0
    | .conn => out32 c.data0 ++ out32 c.data1
    | .func => cstr (unquote c.str)
    | .nonzero => out32 (hashString (unquote c.str)).toUInt32

/-- `CaptureInfoStruct` of the loader: the words that were read, and the name
of the function. -/
structure CaptureInfoStruct where
  op : UInt8
  data : List UInt32
  func : Option Str
  deriving DecidableEq, Repr

/-- The loader's record of a capture statement. -/
def CaptureReqStruct.loaded (c : CaptureReqStruct) : CaptureInfoStruct :=
  match c.type with
  | .groupid => ⟨c.type.toChar, [c.data0], none⟩
  | .type => ⟨c.type.toChar, [c.data0], none⟩
  | .conn => ⟨c.type.toChar, [c.data0, c.data1], none⟩
  | .func => ⟨c.type.toChar, [], some (unquote c.str)⟩
  | .nonzero => ⟨c.type.toChar, [(hashString (unquote c.str)).toUInt32], none⟩

/-- `RegisterFlags`. -/
def PRDR_REGISTER_SCOMLEN : UInt32 := 0x01
def PRDR_REGISTER_RESETS : UInt32 := 0x02
def PRDR_REGISTER_MASKS : UInt32 := 0x04
def PRDR_REGISTER_CAPTURE : UInt32 := 0x08
def PRDR_REGISTER_ACCESS_NIL : UInt32 := 0x10
def PRDR_REGISTER_READ : UInt32 := 0x20
def PRDR_REGISTER_WRITE : UInt32 := 0x40

/-- The three access flags. -/
def readWriteAccess : UInt32 :=
  PRDR_REGISTER_WRITE ||| PRDR_REGISTER_READ ||| PRDR_REGISTER_ACCESS_NIL

/-- `Register` of the compiler. -/
structure Register where
  cvSname : Str
  cvFlags : UInt32
  cvScomaddr : UInt64
  cvScomlen : UInt16
  cvResets : List ResetOrMaskStruct
  cvMasks : List ResetOrMaskStruct
  cvCaptures : List CaptureReqStruct
  deriving DecidableEq, Repr

namespace Register

/-- The flags after the set-up in `Register::output`. -/
def flags (r : Register) : UInt32 :=
  let f := if r.cvResets.length ≠ 0 then r.cvFlags ||| PRDR_REGISTER_RESETS else r.cvFlags
  let f := if r.cvMasks.length ≠ 0 then f ||| PRDR_REGISTER_MASKS else f
  let f := if r.cvCaptures.length ≠ 0 then f ||| PRDR_REGISTER_CAPTURE else f
  if readWriteAccess &&& f = 0 then f ||| readWriteAccess else f

/-- A counted list, when its flag is set. -/
def outputList {α : Type} (flags flag : UInt32) (out : α → Bytes) (as : List α) : Bytes :=
  if flags &&& flag ≠ 0 then out16 (UInt16.ofNat as.length) ++ as.flatMap out else []

def output (r : Register) : Bytes :=
  out16 (hashString r.cvSname) ++ out32 r.flags ++ out64 r.cvScomaddr ++
    (if r.flags &&& PRDR_REGISTER_SCOMLEN ≠ 0 then out16 r.cvScomlen else []) ++
    outputList r.flags PRDR_REGISTER_RESETS ResetOrMaskStruct.output r.cvResets ++
    outputList r.flags PRDR_REGISTER_MASKS ResetOrMaskStruct.output r.cvMasks ++
    outputList r.flags PRDR_REGISTER_CAPTURE CaptureReqStruct.output r.cvCaptures

end Register

/-- `Prdr::Register` of the loader. -/
structure LoadedRegister where
  cvName : UInt16
  cvFlags : UInt32
  cvScomAddr : UInt64
  cvScomLen : UInt16
  cvResets : List ResetOrMaskStruct
  cvMasks : List ResetOrMaskStruct
  cvCaptures : List CaptureInfoStruct
  deriving DecidableEq, Repr

/-- The loader's record of a register: its own SCOM length, or the chip's. -/
def Register.loaded (scomLen : UInt16) (r : Register) : LoadedRegister where
  cvName := hashString r.cvSname
  cvFlags := r.flags
  cvScomAddr := r.cvScomaddr
  cvScomLen := if r.flags &&& PRDR_REGISTER_SCOMLEN ≠ 0 then r.cvScomlen else scomLen
  cvResets := r.cvResets
  cvMasks := r.cvMasks
  cvCaptures := r.cvCaptures.map CaptureReqStruct.loaded

/-! ## Groups and action classes -/

/-- `GroupFlags`. -/
def PRDR_GROUP_FILTER_SINGLE_BIT : UInt8 := 0x1
def PRDR_GROUP_FILTER_PRIORITY : UInt8 := 0x2
def PRDR_GROUP_FILTER_CS_ROOT_CAUSE : UInt8 := 0x8
def PRDR_GROUP_FILTER_CS_ROOT_CAUSE_NULL : UInt8 := 0x10

/-- `Group` of the compiler.  An action class is a group whose `cvOp` is
`ACTION`. -/
structure Group where
  cvRules : List Expr
  cvPriorityList : Expr
  cvCsRootCauseList : Expr
  cvOp : ExprOps
  cvFlags : UInt8

def Group.output (env : Names) (g : Group) : Bytes :=
  g.cvOp.toChar :: (out16 (UInt16.ofNat g.cvRules.length) ++
    (if g.cvOp = .group then
      g.cvFlags ::
        ((if PRDR_GROUP_FILTER_PRIORITY &&& g.cvFlags ≠ 0 then g.cvPriorityList.output env
          else []) ++
        (if PRDR_GROUP_FILTER_CS_ROOT_CAUSE &&& g.cvFlags ≠ 0 then
          g.cvCsRootCauseList.output env
          else []))
      else []) ++
    g.cvRules.flatMap (Expr.output env))

/-- What the loader holds of a bit group: `cv_groupFlags`,
`cv_groupPriorityBits`, `cv_groupCsRootCauseBits` and `cv_groups`. -/
structure LoadedGroup where
  flags : UInt8
  priorityBits : Value
  csRootCauseBits : Value
  lines : List Value

/-- The loader's record of a bit group. -/
def Group.loaded (env : Names) (g : Group) : LoadedGroup where
  flags := g.cvFlags
  priorityBits :=
    if PRDR_GROUP_FILTER_PRIORITY &&& g.cvFlags ≠ 0 then g.cvPriorityList.tree env else .i 0
  csRootCauseBits :=
    if PRDR_GROUP_FILTER_CS_ROOT_CAUSE &&& g.cvFlags ≠ 0 then g.cvCsRootCauseList.tree env
    else .i 0
  lines := g.cvRules.map (Expr.tree env)

/-! ## The chip and its file -/

/-- `Chip` of the compiler: the fields that stand in the file. -/
structure Chip where
  cvChipid : UInt32
  cvTargetType : UInt32
  cvSignatureOffset : UInt32
  cvDumptype : UInt32
  cvScomlen : UInt16
  cvReglist : List Register

/-- The eight characters `PRDRCHIP`. -/
def header : Bytes := chars ['P', 'R', 'D', 'R', 'C', 'H', 'I', 'P']

def Chip.output (c : Chip) : Bytes :=
  header ++ out32 c.cvChipid ++ out32 c.cvTargetType ++ out32 c.cvSignatureOffset ++
    out32 c.cvDumptype ++ out16 c.cvScomlen ++ out16 (UInt16.ofNat c.cvReglist.length) ++
    c.cvReglist.flatMap Register.output

/-- Everything that the compiler has parsed: the chip, `g_rules`, `g_groups`
and `g_actionclasses` in the order of their maps, and the first group of each
of the five attentions. -/
structure RuleFile where
  chip : Chip
  rules : List Expr
  groups : List Group
  actionclasses : List Group
  attentionStartGroup : List Str

/-- A rule as the file holds it: `ExprOp1` of kind `RULE`. -/
def RuleFile.outputRule (env : Names) (e : Expr) : Bytes := ExprOps.rule.toChar :: e.output env

/-- What `main` of the compiler writes. -/
def RuleFile.output (env : Names) (f : RuleFile) : Bytes :=
  f.chip.output ++
    out16 (UInt16.ofNat f.rules.length) ++ f.rules.flatMap (outputRule env) ++
    out16 (UInt16.ofNat f.groups.length) ++
    f.attentionStartGroup.flatMap (fun s => out16 (env.refId s)) ++
    f.groups.flatMap (Group.output env) ++
    out16 (UInt16.ofNat f.actionclasses.length) ++
    f.actionclasses.flatMap (Group.output env)

/-- `Prdr::Chip` of the loader. -/
structure LoadedChip where
  cvChipId : UInt32
  cvTargetType : UInt32
  cvSignatureOffset : UInt32
  cvDumpType : UInt32
  cvScomLen : UInt16
  cvRegisters : List LoadedRegister
  cvRules : List Value
  cvGroupAttn : List UInt16
  cvGroups : List LoadedGroup
  cvActions : List (List Value)

/-- The loader's record of a whole file. -/
def RuleFile.loaded (env : Names) (f : RuleFile) : LoadedChip where
  cvChipId := f.chip.cvChipid
  cvTargetType := f.chip.cvTargetType
  cvSignatureOffset := f.chip.cvSignatureOffset
  cvDumpType := f.chip.cvDumptype
  cvScomLen := f.chip.cvScomlen
  cvRegisters := f.chip.cvReglist.map (Register.loaded f.chip.cvScomlen)
  cvRules := f.rules.map (Expr.tree env)
  cvGroupAttn := f.attentionStartGroup.map env.refId
  cvGroups := f.groups.map (Group.loaded env)
  cvActions := f.actionclasses.map fun g => g.cvRules.map (Expr.tree env)

/-! ## The files that the grammar builds -/

/-- A line of a bit group: a rule with its bits and its action, or another
group. -/
def Expr.GroupLine (env : Names) : Expr → Prop
  | .rule _ bits actionname =>
    bits.Built env ∧
      (env.refType actionname = some .refAct ∨ env.refType actionname = some .refGrp)
  | .ref name => env.refType name = some .refGrp
  | _ => False

/-- A bit group of the grammar. -/
def Group.BuiltGroup (env : Names) (g : Group) : Prop :=
  g.cvOp = .group ∧ (∀ e ∈ g.cvRules, e.GroupLine env) ∧
    (PRDR_GROUP_FILTER_PRIORITY &&& g.cvFlags ≠ 0 → g.cvPriorityList.Built env) ∧
    (PRDR_GROUP_FILTER_CS_ROOT_CAUSE &&& g.cvFlags ≠ 0 → g.cvCsRootCauseList.Built env)

/-- An action class of the grammar. -/
def Group.BuiltAction (env : Names) (g : Group) : Prop :=
  g.cvOp = .action ∧ ∀ e ∈ g.cvRules, e.Built env

/-- A capture statement of the grammar: its strings are string tokens. -/
def CaptureReqStruct.Built (c : CaptureReqStruct) : Prop :=
  (c.type = .func ∨ c.type = .nonzero) → Expr.StringToken c.str

/-- A file of the grammar. -/
structure RuleFile.Built (env : Names) (f : RuleFile) : Prop where
  captures : ∀ r ∈ f.chip.cvReglist, ∀ c ∈ r.cvCaptures, c.Built
  rules : ∀ e ∈ f.rules, e.Built env
  groups : ∀ g ∈ f.groups, g.BuiltGroup env
  actions : ∀ g ∈ f.actionclasses, g.BuiltAction env
  attentions : f.attentionStartGroup.length = 5

end Hostboot.Prdf
