import Hostboot.Lib.Wire
import Mathlib.Algebra.GroupWithZero.Nat

/-!
# Rule expressions: what the rule compiler writes and what the loader holds

A rule file is compiled off line and loaded by the diagnostics at run time.
The two programs share only `ExprOps`, one character for each kind of node.
This module does three things:

* `Expr` are the nodes of the compiler, one constructor for each subclass of
  its `Expr`, and `Expr.output` are the bytes that `output` writes for one;
* `Value` is an entry of the union array of the loader's node: an integer, or
  a pointer to a further node;
* `Expr.tree` is the node that a faithful loader holds for an expression.  It
  is the specification that reading is compared with.

Pointers of the compiler are expressions, and `Expr.null` is the null pointer.
A node that the grammar never builds is excluded by `Expr.Built`.
-/

namespace Hostboot.Prdf

open Lib

/-- A `std::string` or C string, without the final zero. -/
abbrev Str : Type := List UInt8

/-! ## Node kinds -/

/-- `Prdr::ExprOps`. -/
inductive ExprOps
  | refRule | refReg | refGrp | refAct
  | integer | intShort | bitStr
  | not | and | or | xor | lshift | rshift
  | rule | group | action | summary
  | attnlink
  | actThres | actAnaly | actTry | actDump | actCall | actFunc | actFlag | actCapt
  deriving DecidableEq, Repr

namespace ExprOps

/-- The character of a node kind. -/
def toChar : ExprOps → UInt8
  | refRule => 0x72
  | refReg => 0x65
  | refGrp => 0x67
  | refAct => 0x61
  | integer => 0x49
  | intShort => 0x69
  | bitStr => 0x42
  | not => 0x7e
  | and => 0x26
  | or => 0x7c
  | xor => 0x5e
  | lshift => 174
  | rshift => 175
  | rule => 0x52
  | group => 0x47
  | action => 0x41
  | summary => 0x53
  | attnlink => 0x4c
  | actThres => 0x74
  | actAnaly => 0x79
  | actTry => 0x7b
  | actDump => 0x64
  | actCall => 0x63
  | actFunc => 0x66
  | actFlag => 0x46
  | actCapt => 0x43

/-- All node kinds. -/
def all : List ExprOps :=
  [refRule, refReg, refGrp, refAct, integer, intShort, bitStr, not, and, or, xor, lshift,
    rshift, rule, group, action, summary, attnlink, actThres, actAnaly, actTry, actDump,
    actCall, actFunc, actFlag, actCapt]

/-- The kind that a character stands for, if any. -/
def ofChar (c : UInt8) : Option ExprOps := all.find? fun o => o.toChar == c

@[simp] theorem ofChar_toChar (o : ExprOps) : ofChar o.toChar = some o := by
  cases o <;> rfl

end ExprOps

/-! ## The nodes of the loader -/

/-- The places of the `cv_value` array are numbers below seven. -/
instance neZero_seven : NeZero 7 := ⟨by decide⟩

/-- An entry of the `cv_value` array of `Prdr::Expr`: the integer `i`, or a
pointer `p` to the node with those fields.  The null pointer is the integer
`0`. -/
inductive Value
  | i (n : UInt32)
  | p (cvOp : UInt8) (cvValue : Fin 7 → Value) (cvActFunc : Option Str)
      (cvBitStrVect : List UInt64)

namespace Value

/-- The `cv_value` array whose first entries are `vs`, the others cleared. -/
def array (vs : List Value) : Fin 7 → Value := fun k => vs.getD k.val (.i 0)

/-- A node that holds only the entries `vs`. -/
def node (op : UInt8) (vs : List Value) : Value := .p op (array vs) none []

/-- The integer that the union entry reads as; a pointer has none. -/
def int? : Value → Option UInt32
  | .i n => some n
  | .p .. => none

end Value

/-! ## Expressions of the compiler -/

/-- `Prdr::TimeBaseFlags`. -/
inductive TimeBaseFlags
  | sec | min | hour | day
  deriving DecidableEq, Repr

/-- The seconds in one unit. -/
def TimeBaseFlags.seconds : TimeBaseFlags → UInt32
  | sec => 1
  | min => 60
  | hour => 60 * 60
  | day => 60 * 60 * 24

structure ExprTime where
  units : UInt32
  base : TimeBaseFlags
  deriving DecidableEq, Repr

/-- The interval in seconds that `ExprTime::output` writes. -/
def ExprTime.seconds (t : ExprTime) : UInt32 :=
  if 0xffffffff / t.base.seconds > t.units then t.units * t.base.seconds else 0xffffffff

/-- `Prdr::Callout_type`. -/
inductive CalloutType
  | proc | gardSelf | gardChip | gardPeer
  deriving DecidableEq, Repr

/-- The character of a callout type. -/
def CalloutType.toChar : CalloutType → UInt8
  | proc => 1
  | gardSelf => 2
  | gardChip => 3
  | gardPeer => 4

/-- The subclasses of the compiler's `Expr`, under pointers. -/
inductive Expr
  | null
  | ref (name : Str)
  | int (value : UInt32) (op : ExprOps)
  | bitString (value : Str)
  | op1 (op : ExprOps) (arg : Expr)
  | op2 (op : ExprOps) (arg0 arg1 : Expr)
  | attnLink (check recov special proccs hostattn : Expr)
  | rule (rulename : Str) (bits : Expr) (actionname : Str)
  | actTry (left right : Expr)
  | actThresh (field : UInt8) (fieldTime : Option ExprTime) (mfg : UInt8)
      (mfgTime : Option ExprTime) (mfgFile : Option Str) (shared : UInt32)
  | actDump (arg : Option Str)
  | actAnalyse (type : Str) (index : UInt32)
  | actCallout (priority : Str) (arg : Option Str) (type : CalloutType) (index : UInt32)
      (alt : Expr) (gard : Option Str)
  | actFunccall (func : Str) (chip : Option Str)
  | actFlag (flag : Str)
  | actCapture (group : Str)

/-! ## Hex digits -/

/-- `isdigit` and the letters that the scanner takes for hex digits. -/
def IsHexDigit (c : UInt8) : Prop :=
  (0x30 ≤ c ∧ c ≤ 0x39) ∨ (0x41 ≤ c ∧ c ≤ 0x46) ∨ (0x61 ≤ c ∧ c ≤ 0x66)

instance (c : UInt8) : Decidable (IsHexDigit c) := by
  unfold IsHexDigit
  infer_instance

def toupper (c : UInt8) : UInt8 := if 0x61 ≤ c ∧ c ≤ 0x7a then c - 0x20 else c

/-- The value that `ExprBitString::output` gives to a hex digit. -/
def hexValue (c : UInt8) : UInt8 :=
  if 0x30 ≤ c ∧ c ≤ 0x39 then c - 0x30 else toupper c - 0x41 + 0xa

/-- Pack hex digits into bytes, two in each; an odd last one fills its byte
with zeros. -/
def packNibbles : List UInt8 → Bytes
  | [] => []
  | [d] => [d <<< 4]
  | d :: d' :: ds => ((d <<< 4) ||| d') :: packNibbles ds

/-- The digits between the two backticks of a bit string. -/
def bitDigits (value : Str) : List UInt8 := (value.drop 1).take (value.length - 2)

/-- The first `k` words that the hex digits stand for. -/
def bitWordsFrom : Nat → List UInt8 → List UInt64
  | 0, _ => []
  | k + 1, ds =>
    let block := ds.take 16 ++ List.replicate (16 - ds.length) 0
    UInt64.ofNat (block.foldl (fun n d => 16 * n + d.toNat) 0) :: bitWordsFrom k (ds.drop 16)

/-- The words that the hex digits stand for: sixteen digits in each, the last
word filled with zeros. -/
def bitWords (ds : List UInt8) : List UInt64 := bitWordsFrom ((ds.length + 15) / 16) ds

/-! ## What the compiler writes -/

/-- The tables that the compiler looks names up in: `g_refType`, `g_refId`,
`g_ActionArgMap` and the capture groups. -/
structure Names where
  refType : Str → Option ExprOps
  refId : Str → UInt16
  actionArg : Str → UInt32
  captureGroup : Str → UInt32

/-- `prdrGetRefType`: the character of a reference, zero for an unknown one. -/
def Names.refChar (env : Names) (name : Str) : UInt8 :=
  match env.refType name with
  | some o => o.toChar
  | none => 0

attribute [grind =] Names.refChar

/-- A double quote. -/
def quote : UInt8 := 0x22

/-- The text of a string token without its quotes. -/
def unquote (s : Str) : Str :=
  if s.head? = some quote then (s.drop 1).take (s.length - 2) else s

/-- A C string as it stands in the file. -/
def cstr (s : Str) : Bytes := s ++ [0]

/-- A string of ASCII characters. -/
def chars (cs : List Char) : Str := cs.map fun c => UInt8.ofNat c.toNat

/-- `DUMP_CONTENT_HW`. -/
def dumpContentHw : Str := chars ['D', 'U', 'M', 'P', '_', 'C', 'O', 'N', 'T', 'E', 'N', 'T',
    '_', 'H', 'W']

/-- `TYPE_NA`. -/
def typeNa : Str := chars ['T', 'Y', 'P', 'E', '_', 'N', 'A']

/-- `NO_GARD`. -/
def noGard : Str := chars ['N', 'O', '_', 'G', 'A', 'R', 'D']

/-- `GARD`. -/
def gard : Str := chars ['G', 'A', 'R', 'D']

section

open Wire

/-- `htobe16` and the write of the two bytes. -/
def out16 (n : UInt16) : Bytes := encode 2 n.toNat

/-- `htobe32` and the write of the four bytes. -/
def out32 (n : UInt32) : Bytes := encode 4 n.toNat

/-- `htobe64` and the write of the eight bytes. -/
def out64 (n : UInt64) : Bytes := encode 8 n.toNat

/-- The gard state that `ExprAct_Callout::output` writes, one character. -/
def gardState (env : Names) (type : CalloutType) (state : Option Str) : UInt8 :=
  match state with
  | some s => (env.actionArg s).toUInt8
  | none => if type = .proc then (env.actionArg noGard).toUInt8 else (env.actionArg gard).toUInt8

/-- The chip of a function call, zero without one. -/
def funcChip (env : Names) (chip : Option Str) : UInt32 :=
  match chip with
  | some c => env.actionArg c
  | none => 0

/-- The flag character of a threshold: how many policies follow, whether a
shared id follows, and whether the manufacturing policy is named. -/
def threshFlags (fieldTime mfgTime : Option ExprTime) (mfgFile : Option Str) (shared : UInt32) :
    UInt8 :=
  let count : UInt8 :=
    if fieldTime.isNone then 0
    else if mfgTime.isNone && mfgFile.isNone then 1
    else 2
  let count := if shared ≠ 0 then count ||| 0x40 else count
  if mfgFile.isSome then count ||| 0x20 else count

/-- The policies of a threshold as `ExprAct_Thresh::output` writes them. -/
def threshPolicies (env : Names) (field : UInt8) (fieldTime : Option ExprTime) (mfg : UInt8)
    (mfgTime : Option ExprTime) (mfgFile : Option Str) : Bytes :=
  match fieldTime with
  | none => []
  | some t =>
    field :: out32 t.seconds ++
      match mfgTime, mfgFile with
      | some t', _ => mfg :: out32 t'.seconds
      | none, some name => out32 (env.actionArg name)
      | none, none => []

/-- The entry of an attention link for an operand that is there. -/
def linkEntry (index : UInt8) : Expr → Bytes → List (UInt8 × Bytes)
  | .null, _ => []
  | _, bs => [(index, bs)]

attribute [grind =] linkEntry

/-- The bool of a callout that says whether an alternate follows. -/
def hasAlt : Expr → UInt8
  | .null => 0
  | _ => 1

/-- `output` of each subclass. -/
def Expr.output (env : Names) : Expr → Bytes
  | null => []
  | ref name => env.refChar name :: out16 (env.refId name)
  | int value op => op.toChar :: if op ≠ .integer then out16 value.toUInt16 else out32 value
  | bitString value =>
    -- the length in bits is kept in one byte, and the digits written follow it
    let len : UInt8 := UInt8.ofNat ((value.length - 2) * 4)
    let digits := (value.drop 1).take (len.toNat / 4)
    ExprOps.bitStr.toChar :: len :: packNibbles (digits.map hexValue)
  | op1 op arg => op.toChar :: arg.output env
  | op2 op arg0 arg1 => op.toChar :: (arg0.output env ++ arg1.output env)
  | attnLink check recov special proccs hostattn =>
    let links := linkEntry 0 check (check.output env) ++ linkEntry 1 recov (recov.output env) ++
      linkEntry 2 special (special.output env) ++ linkEntry 3 proccs (proccs.output env) ++
      linkEntry 4 hostattn (hostattn.output env)
    ExprOps.attnlink.toChar :: UInt8.ofNat links.length :: links.flatMap fun l => l.1 :: l.2
  | rule rulename bits actionname =>
    ExprOps.refRule.toChar :: out16 (env.refId rulename) ++ bits.output env ++
      env.refChar actionname :: out16 (env.refId actionname)
  | actTry left right => ExprOps.actTry.toChar :: (left.output env ++ right.output env)
  | actThresh field fieldTime mfg mfgTime mfgFile shared =>
    ExprOps.actThres.toChar :: threshFlags fieldTime mfgTime mfgFile shared ::
      (threshPolicies env field fieldTime mfg mfgTime mfgFile ++
        if shared ≠ 0 then out32 shared else [])
  | actDump arg => ExprOps.actDump.toChar :: out32 (env.actionArg (arg.getD dumpContentHw))
  | actAnalyse type index =>
    ExprOps.actAnaly.toChar :: (out32 (env.actionArg type) ++ out32 index)
  | actCallout priority arg type index alt state =>
    ExprOps.actCall.toChar :: type.toChar :: (out32 (env.actionArg priority) ++
      (if type = .gardSelf then []
        else
          out32 (env.actionArg (arg.getD [])) ++ (out32 index ++ (hasAlt alt :: (alt.output env ++
            out32 (env.actionArg (if type = .gardPeer then arg.getD [] else typeNa)))))) ++
      [gardState env type state])
  | actFunccall func chip =>
    ExprOps.actFunc.toChar :: (cstr (unquote func) ++ out32 (funcChip env chip))
  | actFlag flag => ExprOps.actFlag.toChar :: out32 (env.actionArg flag)
  | actCapture group => ExprOps.actCapt.toChar :: out32 (env.captureGroup group)

end

/-! ## The node that stands for an expression -/

/-- `ThresholdResolution::cv_fieldDefault`: 32 in a day. -/
def fieldDefault : UInt32 × UInt32 := (32, 60 * 60 * 24)

/-- `ThresholdResolution::cv_mnfgDefault`: one, without an interval. -/
def mnfgDefault : UInt32 × UInt32 := (1, 0xffffffff)

/-- The entries of a threshold node: the field policy, the manufacturing
policy or its name, whether it is named, and the shared id. -/
def threshEntries (env : Names) (field : UInt8) (fieldTime : Option ExprTime) (mfg : UInt8)
    (mfgTime : Option ExprTime) (mfgFile : Option Str) (shared : UInt32) : List Value :=
  let fieldPolicy := match fieldTime with
    | some t => (field.toUInt32, t.seconds)
    | none => fieldDefault
  let mfgPolicy := match mfgTime, mfgFile with
    | some t, _ => (mfg.toUInt32, t.seconds)
    | none, some name => (mnfgDefault.1, env.actionArg name)
    | none, none => mnfgDefault
  [.i fieldPolicy.1, .i fieldPolicy.2, .i mfgPolicy.1, .i mfgPolicy.2,
    .i (if mfgFile.isSome then 1 else 0), .i shared]

/-- The node that a faithful loader holds for an expression. -/
def Expr.tree (env : Names) : Expr → Value
  | null => .i 0
  | ref name => .node (env.refChar name) [.i (env.refId name).toUInt32]
  | int value op => .node op.toChar [.i value]
  | bitString value =>
    .p ExprOps.bitStr.toChar (Value.array []) none (bitWords ((bitDigits value).map hexValue))
  | op1 op arg => .node op.toChar [arg.tree env]
  | op2 op arg0 arg1 => .node op.toChar [arg0.tree env, arg1.tree env]
  | attnLink check recov special proccs hostattn =>
    .node ExprOps.attnlink.toChar [check.tree env, recov.tree env, special.tree env,
      proccs.tree env, hostattn.tree env]
  | rule rulename bits actionname =>
    .node ExprOps.refRule.toChar [.i (env.refId rulename).toUInt32, bits.tree env,
      .node (env.refChar actionname) [.i (env.refId actionname).toUInt32]]
  | actTry left right => .node ExprOps.actTry.toChar [left.tree env, right.tree env]
  | actThresh field fieldTime mfg mfgTime mfgFile shared =>
    .node ExprOps.actThres.toChar (threshEntries env field fieldTime mfg mfgTime mfgFile shared)
  | actDump arg =>
    .node ExprOps.actDump.toChar [.i (env.actionArg (arg.getD dumpContentHw))]
  | actAnalyse type index =>
    .node ExprOps.actAnaly.toChar [.i (env.actionArg type), .i index]
  | actCallout priority arg type index alt state =>
    let args : List Value :=
      if type = .gardSelf then [.i 0, .i 0, .i 0, .i 0]
      else [.i (env.actionArg (arg.getD [])), .i index, alt.tree env,
        .i (env.actionArg (if type = .gardPeer then arg.getD [] else typeNa))]
    .node ExprOps.actCall.toChar (.i type.toChar.toUInt32 :: .i (env.actionArg priority) ::
      (args ++ [.i (gardState env type state).toUInt32]))
  | actFunccall func chip =>
    .p ExprOps.actFunc.toChar
      (Value.array [.i 0, .i (funcChip env chip)]) (some (unquote func)) []
  | actFlag flag => .node ExprOps.actFlag.toChar [.i (env.actionArg flag)]
  | actCapture group => .node ExprOps.actCapt.toChar [.i (env.captureGroup group)]

attribute [grind =] Expr.output Expr.tree

/-! ## Parts, and the expressions that the grammar builds -/

namespace Expr

/-- An expression and everything below it. -/
def parts : Expr → List Expr
  | null => []
  | op1 op arg => op1 op arg :: arg.parts
  | op2 op arg0 arg1 => op2 op arg0 arg1 :: (arg0.parts ++ arg1.parts)
  | attnLink check recov special proccs hostattn =>
    attnLink check recov special proccs hostattn ::
      (check.parts ++ recov.parts ++ special.parts ++ proccs.parts ++ hostattn.parts)
  | rule rulename bits actionname => rule rulename bits actionname :: bits.parts
  | actTry left right => actTry left right :: (left.parts ++ right.parts)
  | actCallout priority arg type index alt state =>
    actCallout priority arg type index alt state :: alt.parts
  | e => [e]

attribute [grind =] parts

/-- The text of a string token, a quote first, none inside and no zero. -/
def StringToken (s : Str) : Prop := ∃ text : Str, s = quote :: text ++ [quote] ∧ 0 ∉ text

/-- What the grammar asks of one node, its parts apart.  References are
resolved, operators have their operands, and a manufacturing policy only
follows a field policy. -/
def BuiltHere (env : Names) : Expr → Prop
  | null => False
  | ref name =>
    env.refType name = some .refRule ∨ env.refType name = some .refReg ∨
      env.refType name = some .refGrp ∨ env.refType name = some .refAct
  | int _ op => op = .integer ∨ op = .intShort
  | bitString value =>
    ∃ digits : List UInt8, value = 0x60 :: digits ++ [0x60] ∧ ∀ d ∈ digits, IsHexDigit d
  | op1 op arg => op = .not ∧ arg ≠ null
  | op2 op arg0 arg1 =>
    (op = .and ∨ op = .or ∨ op = .xor ∨ op = .lshift ∨ op = .rshift ∨ op = .summary) ∧
      arg0 ≠ null ∧ arg1 ≠ null
  | attnLink .. => True
  | rule .. => False
  | actTry left right => left ≠ null ∧ right ≠ null
  | actThresh _ fieldTime _ mfgTime mfgFile _ =>
    (fieldTime = none → mfgTime = none ∧ mfgFile = none) ∧ (mfgTime = none ∨ mfgFile = none)
  | actDump _ => True
  | actAnalyse .. => True
  | actCallout _ arg type _ alt _ =>
    if type = .gardSelf then arg = none ∧ alt = null else arg ≠ none
  | actFunccall func _ => StringToken func
  | actFlag _ => True
  | actCapture _ => True

attribute [grind =] BuiltHere

/-- An expression that the grammar builds for a rule, a bit list or an action. -/
def Built (env : Names) (e : Expr) : Prop := e ≠ null ∧ ∀ s ∈ e.parts, s.BuiltHere env

end Expr

end Hostboot.Prdf
