import Hostboot.Lib.Wire
import Mathlib.Data.List.Nodup

/-!
# Attribute tanks

An `AttributeTank` is a list of attribute values for targets.  `setAttribute`
replaces the value of an attribute that is there, unless only the old one has
the CONST flag, or adds the attribute at the end.  `clearNonConstAttribute`
deletes one that does not have the flag.  `getAttribute` takes the first that is
for the target, also one with N/A in place of a position, a unit or a node.

The three find an attribute in different ways: `setAttribute` also compares the
size of the value, and only `getAttribute` looks at N/A.  `tankContract_of_run`
is about calls that set each attribute with values of one size.  The header has
four bits for the node and for the flags.
-/

namespace Hostboot.Targeting

open Lib List

/-! ## Attributes -/

def ATTR_FLAG_CONST : UInt8 := 0x01

def ATTR_POS_NA : UInt16 := 0xffff

def ATTR_UNIT_POS_NA : UInt8 := 0xff

def ATTR_NODE_NA : UInt8 := 0xf

/-- The attribute and the target that a call is about. -/
structure AttributeKey where
  attrId : UInt32
  targetType : UInt32
  pos : UInt16
  unitPos : UInt8
  node : UInt8
  deriving DecidableEq

/-- `Attribute`.  The length of the value is `iv_valSize`. -/
structure Attribute where
  attrId : UInt32
  targetType : UInt32
  pos : UInt16
  unitPos : UInt8
  node : BitVec 4
  flags : BitVec 4
  value : Bytes
  size : value.length < 2 ^ 32
  deriving DecidableEq

/-- A call of `setAttribute`. -/
structure SetCall where
  key : AttributeKey
  flags : UInt8
  value : Bytes
  size : value.length < 2 ^ 32
  deriving DecidableEq

/-- Whether the call has the CONST flag. -/
def SetCall.isConst (c : SetCall) : Bool := c.flags &&& ATTR_FLAG_CONST != 0

namespace Attribute

/-- The fields of the header by which an attribute is found. -/
def key (a : Attribute) : AttributeKey :=
  ⟨a.attrId, a.targetType, a.pos, a.unitPos, UInt8.ofNat a.node.toNat⟩

/-- Whether the attribute has the CONST flag. -/
def isConst (a : Attribute) : Bool := UInt8.ofNat a.flags.toNat &&& ATTR_FLAG_CONST != 0

/-- A new attribute. -/
def new (c : SetCall) : Attribute where
  attrId := c.key.attrId
  targetType := c.key.targetType
  pos := c.key.pos
  unitPos := c.key.unitPos
  node := BitVec.ofNat 4 c.key.node.toNat
  flags := BitVec.ofNat 4 c.flags.toNat
  value := c.value
  size := c.size

/-- `setFlags` and `setValue`. -/
def update (a : Attribute) (c : SetCall) : Attribute :=
  { a with flags := BitVec.ofNat 4 c.flags.toNat, value := c.value, size := c.size }

/-- The comparison of `getAttribute`. -/
def answers (a : Attribute) (k : AttributeKey) : Bool :=
  a.attrId == k.attrId && a.targetType == k.targetType &&
    (a.pos == ATTR_POS_NA || a.pos == k.pos) &&
    (a.unitPos == ATTR_UNIT_POS_NA || a.unitPos == k.unitPos) &&
    (a.key.node == ATTR_NODE_NA || a.key.node == k.node)

end Attribute

/-! ## The calls -/

inductive NodeFilter where
  | NODE_FILTER_NONE
  | NODE_FILTER_NOT_ALL_NODES
  | NODE_FILTER_SPECIFIC_NODE_AND_ALL
  | NODE_FILTER_SPECIFIC_NODE
  deriving DecidableEq

/-- Whether an attribute passes a filter. -/
def NodeFilter.passes (f : NodeFilter) (node : UInt8) (a : Attribute) : Bool :=
  match f with
  | .NODE_FILTER_NONE => true
  | .NODE_FILTER_NOT_ALL_NODES => a.key.node != ATTR_NODE_NA
  | .NODE_FILTER_SPECIFIC_NODE_AND_ALL => a.key.node == ATTR_NODE_NA || a.key.node == node
  | .NODE_FILTER_SPECIFIC_NODE => a.key.node == node

def clearAllAttributes (f : NodeFilter) (node : UInt8) (tank : List Attribute) : List Attribute :=
  tank.filter fun a => !f.passes node a

def clearNonConstAttribute (k : AttributeKey) : List Attribute → List Attribute
  | [] => []
  | a :: tank =>
    if a.key = k then if a.isConst then a :: tank else tank
    else a :: clearNonConstAttribute k tank

def setAttribute (c : SetCall) : List Attribute → List Attribute
  | [] => [.new c]
  | a :: tank =>
    if a.key = c.key ∧ a.value.length = c.value.length then
      if a.isConst && !c.isConst then a :: tank else a.update c :: tank
    else a :: setAttribute c tank

/-- `getAttribute`, with the value that is copied. -/
def getAttribute (k : AttributeKey) (tank : List Attribute) : Option Bytes :=
  (tank.find? (·.answers k)).map Attribute.value

/-- The calls that change a tank. -/
inductive TankOp where
  | set (c : SetCall)
  | clearNonConst (k : AttributeKey)
  | clearAll (f : NodeFilter) (node : UInt8)

/-- One call. -/
def TankOp.apply (tank : List Attribute) : TankOp → List Attribute
  | .set c => setAttribute c tank
  | .clearNonConst k => clearNonConstAttribute k tank
  | .clearAll f node => clearAllAttributes f node tank

/-- The tank after some calls. -/
def runTank (ops : List TankOp) : List Attribute := ops.foldl TankOp.apply []

/-! ## What is promised -/

/-- Whether a call leaves the CONST value of an attribute alone. -/
def TankOp.LeavesConst (k : AttributeKey) : TankOp → Prop
  | .set c => c.key = k → c.isConst = false
  | .clearNonConst _ => True
  | .clearAll _ _ => False

/-- What is promised of a tank that some calls have left. -/
structure TankContract (ops : List TankOp) (tank : List Attribute) : Prop where
  apart : tank.Pairwise fun a b => a.key ≠ b.key
  /-- A CONST value stays, and is what is read unless an attribute with N/A is found first. -/
  const : ∀ before c after, ops = before ++ .set c :: after → c.isConst = true →
    (∀ op ∈ after, op.LeavesConst c.key) →
    getAttribute c.key tank = some c.value ∨
      ∃ b ∈ tank, b.key ≠ c.key ∧ b.answers c.key = true ∧
        getAttribute c.key tank = some b.value
  cleared : ∀ k, ∀ a ∈ clearNonConstAttribute k tank, a.key = k → a.isConst = true

/-- The call sets an attribute of a node of four bits, with a value of the size of the attribute. -/
def TankOp.Respects (sizeOf : AttributeKey → Nat) : TankOp → Prop
  | .set c => c.key.node.toNat < 16 ∧ c.value.length = sizeOf c.key
  | _ => True

/-! ## Single calls -/

variable {tank : List Attribute} {a : Attribute} {c : SetCall} {k : AttributeKey}

theorem const_of_flags (flags : UInt8) :
    (UInt8.ofNat (BitVec.ofNat 4 flags.toNat).toNat &&& ATTR_FLAG_CONST != 0)
      = (flags &&& ATTR_FLAG_CONST != 0) := by
  have hall : ∀ n < 256, (UInt8.ofNat (BitVec.ofNat 4 (UInt8.ofNat n).toNat).toNat &&&
      ATTR_FLAG_CONST != 0) = (UInt8.ofNat n &&& ATTR_FLAG_CONST != 0) := by decide +kernel
  have h := hall flags.toNat flags.toNat_lt
  rwa [UInt8.ofNat_toNat] at h

@[simp] theorem Attribute.isConst_new (c : SetCall) : (Attribute.new c).isConst = c.isConst :=
  const_of_flags c.flags

@[simp] theorem Attribute.isConst_update (a : Attribute) (c : SetCall) :
    (a.update c).isConst = c.isConst := const_of_flags c.flags

theorem Attribute.key_new (h : c.key.node.toNat < 16) : (Attribute.new c).key = c.key := by
  have hnode : UInt8.ofNat (BitVec.ofNat 4 c.key.node.toNat).toNat = c.key.node := by
    rw [BitVec.toNat_ofNat, Nat.mod_eq_of_lt h, UInt8.ofNat_toNat]
  rw [key, new, hnode]

theorem Attribute.answers_key (a : Attribute) : a.answers a.key = true := by
  simp [answers, key]

/-- Each attribute is there once, with a value of its size. -/
structure WellKept (sizeOf : AttributeKey → Nat) (tank : List Attribute) : Prop where
  nodup : (tank.map Attribute.key).Nodup
  sized : ∀ a ∈ tank, a.value.length = sizeOf a.key

/-- What a call of `setAttribute` does to an attribute that is there. -/
def Attribute.overwrite (a : Attribute) (c : SetCall) : Attribute :=
  if a.isConst && !c.isConst then a else a.update c

theorem Attribute.key_overwrite (a : Attribute) (c : SetCall) : (a.overwrite c).key = a.key := by
  unfold overwrite
  split <;> rfl

theorem setAttribute_cases (tank : List Attribute) (c : SetCall) :
    (∃ front a rest, tank = front ++ a :: rest ∧ a.key = c.key ∧
        a.value.length = c.value.length ∧ setAttribute c tank = front ++ a.overwrite c :: rest) ∨
      ((∀ a ∈ tank, a.key = c.key → a.value.length ≠ c.value.length) ∧
        setAttribute c tank = tank ++ [.new c]) := by
  induction tank with
  | nil => exact .inr ⟨nofun, rfl⟩
  | cons a tank ih =>
    rw [setAttribute]
    by_cases hmatch : a.key = c.key ∧ a.value.length = c.value.length
    · refine .inl ⟨[], a, tank, rfl, hmatch.1, hmatch.2, ?_⟩
      rw [if_pos hmatch, Attribute.overwrite]
      split <;> rfl
    · rw [if_neg hmatch]
      rcases ih with ⟨front, b, rest, rfl, hkey, hsize, heq⟩ | ⟨hnone, heq⟩
      · exact .inl ⟨a :: front, b, rest, rfl, hkey, hsize, by rw [heq]; rfl⟩
      · refine .inr ⟨fun b hb hkey hsize => ?_, by rw [heq]; rfl⟩
        rcases mem_cons.mp hb with rfl | hb
        · exact hmatch ⟨hkey, hsize⟩
        · exact hnone b hb hkey hsize

theorem clearNonConst_cases (tank : List Attribute) (k : AttributeKey) :
    (∃ front a rest, tank = front ++ a :: rest ∧ a.key = k ∧ a.isConst = false ∧
        clearNonConstAttribute k tank = front ++ rest) ∨
      clearNonConstAttribute k tank = tank ∧
        ((∀ a ∈ tank, a.key ≠ k) ∨ ∃ a ∈ tank, a.key = k ∧ a.isConst = true) := by
  induction tank with
  | nil => exact .inr ⟨rfl, .inl nofun⟩
  | cons a tank ih =>
    rw [clearNonConstAttribute]
    by_cases hkey : a.key = k
    · rw [if_pos hkey]
      cases hconst : a.isConst with
      | true => exact .inr ⟨rfl, .inr ⟨a, mem_cons_self, hkey, hconst⟩⟩
      | false => exact .inl ⟨[], a, tank, rfl, hkey, hconst, rfl⟩
    · rw [if_neg hkey]
      rcases ih with ⟨front, b, rest, rfl, hb, hconst, heq⟩ | ⟨heq, hrest⟩
      · exact .inl ⟨a :: front, b, rest, rfl, hb, hconst, by rw [heq]; rfl⟩
      · refine .inr ⟨by rw [heq], hrest.imp (fun hnone b hb => ?_) ?_⟩
        · rcases mem_cons.mp hb with rfl | hb
          · exact hkey
          · exact hnone b hb
        · rintro ⟨b, hb, h⟩
          exact ⟨b, mem_cons_of_mem a hb, h⟩

variable {sizeOf : AttributeKey → Nat}

theorem WellKept.eq_of_key (h : WellKept sizeOf tank) {a b : Attribute} (ha : a ∈ tank)
    (hb : b ∈ tank) (hkey : a.key = b.key) : a = b :=
  inj_on_of_nodup_map h.nodup ha hb hkey

/-! ## Runs -/

theorem WellKept.sublist {rest : List Attribute} (h : WellKept sizeOf tank)
    (hsub : rest.Sublist tank) : WellKept sizeOf rest :=
  ⟨h.nodup.sublist (hsub.map _), fun a ha => h.sized a (hsub.subset ha)⟩

theorem WellKept.apply (h : WellKept sizeOf tank) {op : TankOp} (hop : op.Respects sizeOf) :
    WellKept sizeOf (op.apply tank) := by
  cases op with
  | set c =>
    obtain ⟨hnode, hsize⟩ := hop
    rw [TankOp.apply]
    rcases setAttribute_cases tank c with ⟨front, a, rest, rfl, hkey, hlen, heq⟩ | ⟨hnone, heq⟩
    · have hkeys : (front ++ a.overwrite c :: rest).map Attribute.key
          = (front ++ a :: rest).map Attribute.key := by
        rw [map_append, map_cons, a.key_overwrite, map_append, map_cons]
      have hvalue : (a.overwrite c).value.length = a.value.length := by
        unfold Attribute.overwrite
        split
        · rfl
        · exact hlen.symm
      rw [heq]
      refine ⟨hkeys ▸ h.nodup, fun b hb => ?_⟩
      rcases mem_append.mp hb with hb | hb
      · exact h.sized b (mem_append_left _ hb)
      rcases mem_cons.mp hb with rfl | hb
      · rw [hvalue, a.key_overwrite]
        exact h.sized a (mem_append_right _ mem_cons_self)
      · exact h.sized b (mem_append_right _ (mem_cons_of_mem a hb))
    · have hnew := Attribute.key_new hnode
      have hfresh : ∀ a ∈ tank, a.key ≠ c.key := fun a ha hkey =>
        hnone a ha hkey (by rw [h.sized a ha, hkey, hsize])
      rw [heq]
      refine ⟨?_, fun b hb => ?_⟩
      · rw [map_append, map_singleton, hnew, nodup_append]
        refine ⟨h.nodup, nodup_singleton _, fun k hk k' hk' => ?_⟩
        obtain ⟨a, ha, rfl⟩ := mem_map.mp hk
        rw [mem_singleton.mp hk']
        exact hfresh a ha
      · rcases mem_append.mp hb with hb | hb
        · exact h.sized b hb
        · rw [mem_singleton.mp hb, hnew]
          exact hsize
  | clearNonConst k =>
    rw [TankOp.apply]
    rcases clearNonConst_cases tank k with ⟨front, a, rest, rfl, -, -, heq⟩ | ⟨heq, -⟩
    · rw [heq]
      exact h.sublist ((List.Sublist.refl front).append (sublist_cons_self a rest))
    · rwa [heq]
  | clearAll f node => exact h.sublist filter_sublist

/-- A CONST value is in the tank. -/
def Held (c : SetCall) (tank : List Attribute) : Prop :=
  ∃ a ∈ tank, a.key = c.key ∧ a.isConst = true ∧ a.value = c.value

theorem held_setAttribute (hnode : c.key.node.toNat < 16) (hconst : c.isConst = true) :
    Held c (setAttribute c tank) := by
  rcases setAttribute_cases tank c with ⟨front, a, rest, rfl, hkey, -, heq⟩ | ⟨-, heq⟩
  · have hover : a.overwrite c = a.update c := by
      rw [Attribute.overwrite, hconst, Bool.not_true, Bool.and_false, if_neg Bool.false_ne_true]
    rw [heq, hover]
    exact ⟨a.update c, mem_append_right _ mem_cons_self, hkey,
      (a.isConst_update c).trans hconst, rfl⟩
  · rw [heq]
    exact ⟨.new c, mem_append_right _ (mem_singleton_self _), Attribute.key_new hnode,
      (Attribute.isConst_new c).trans hconst, rfl⟩

theorem Held.apply (h : Held c tank) (hkept : WellKept sizeOf tank) {op : TankOp}
    (hop : op.LeavesConst c.key) : Held c (op.apply tank) := by
  obtain ⟨a, ha, hkey, hconst, hvalue⟩ := h
  cases op with
  | set d =>
    rw [TankOp.apply]
    rcases setAttribute_cases tank d with ⟨front, b, rest, rfl, hb, -, heq⟩ | ⟨-, heq⟩
    · rw [heq]
      by_cases hsame : a = b
      · subst hsame
        have hd : d.isConst = false := hop (hb.symm.trans hkey)
        have hover : a.overwrite d = a := by
          rw [Attribute.overwrite, hconst, hd]
          rfl
        rw [hover]
        exact ⟨a, ha, hkey, hconst, hvalue⟩
      · refine ⟨a, ?_, hkey, hconst, hvalue⟩
        rcases mem_append.mp ha with ha | ha
        · exact mem_append_left _ ha
        · exact mem_append_right _
            (mem_cons_of_mem _ ((mem_cons.mp ha).resolve_left hsame))
    · rw [heq]
      exact ⟨a, mem_append_left _ ha, hkey, hconst, hvalue⟩
  | clearNonConst k =>
    rw [TankOp.apply]
    rcases clearNonConst_cases tank k with ⟨front, b, rest, rfl, -, hb, heq⟩ | ⟨heq, -⟩
    · rw [heq]
      have hne : a ≠ b := by
        rintro rfl
        rw [hconst] at hb
        exact Bool.noConfusion hb
      refine ⟨a, ?_, hkey, hconst, hvalue⟩
      rcases mem_append.mp ha with ha | ha
      · exact mem_append_left _ ha
      · exact mem_append_right _ ((mem_cons.mp ha).resolve_left hne)
    · rw [heq]
      exact ⟨a, ha, hkey, hconst, hvalue⟩
  | clearAll f node => exact hop.elim

theorem Held.getAttribute (h : Held c tank) (hkept : WellKept sizeOf tank) :
    getAttribute c.key tank = some c.value ∨
      ∃ b ∈ tank, b.key ≠ c.key ∧ b.answers c.key = true ∧
        Hostboot.Targeting.getAttribute c.key tank = some b.value := by
  obtain ⟨a, ha, hkey, -, hvalue⟩ := h
  have hanswers : a.answers c.key = true := hkey ▸ a.answers_key
  unfold Hostboot.Targeting.getAttribute
  cases hfind : tank.find? (·.answers c.key) with
  | none => exact absurd hanswers (find?_eq_none.mp hfind a ha)
  | some b =>
    have hb := mem_of_find?_eq_some hfind
    have hbanswers := find?_some hfind
    by_cases hsame : b.key = c.key
    · rw [hkept.eq_of_key hb ha (hsame.trans hkey.symm), Option.map_some, hvalue]
      exact .inl rfl
    · exact .inr ⟨b, hb, hsame, hbanswers, rfl⟩

theorem WellKept.run {ops : List TankOp} (h : WellKept sizeOf tank)
    (hops : ∀ op ∈ ops, op.Respects sizeOf) : WellKept sizeOf (ops.foldl TankOp.apply tank) := by
  induction ops generalizing tank with
  | nil => exact h
  | cons op ops ih =>
    obtain ⟨hop, hrest⟩ := forall_mem_cons.mp hops
    exact ih (h.apply hop) hrest

theorem Held.run {ops : List TankOp} (h : Held c tank) (hkept : WellKept sizeOf tank)
    (hops : ∀ op ∈ ops, op.Respects sizeOf) (hleaves : ∀ op ∈ ops, op.LeavesConst c.key) :
    Held c (ops.foldl TankOp.apply tank) := by
  induction ops generalizing tank with
  | nil => exact h
  | cons op ops ih =>
    obtain ⟨hop, hrest⟩ := forall_mem_cons.mp hops
    obtain ⟨hleave, hleaves⟩ := forall_mem_cons.mp hleaves
    exact ih (h.apply hkept hleave) (hkept.apply hop) hrest hleaves

/-- What holds after every run of calls that set each attribute with values of one size. -/
theorem tankContract_of_run (sizeOf : AttributeKey → Nat) (ops : List TankOp)
    (hops : ∀ op ∈ ops, op.Respects sizeOf) : TankContract ops (runTank ops) := by
  have hempty : WellKept sizeOf [] := ⟨.nil, nofun⟩
  have hkept : WellKept sizeOf (runTank ops) := hempty.run hops
  refine ⟨pairwise_map.mp hkept.nodup, ?_, fun k a ha hkey => ?_⟩
  · rintro before c after rfl hconst hleaves
    rw [forall_mem_append, forall_mem_cons] at hops
    obtain ⟨hbefore, hset, hafter⟩ := hops
    have hstart := (hempty.run hbefore).apply hset
    have hheld := (held_setAttribute hset.1 hconst).run hstart hafter hleaves
    refine Held.getAttribute ?_ hkept
    rwa [runTank, foldl_append, foldl_cons]
  · rcases clearNonConst_cases (runTank ops) k with ⟨front, b, rest, heq, hb, hconst, hclear⟩ |
      ⟨hclear, hnone | ⟨b, hb, hbkey, hconst⟩⟩
    · have hnodup := hkept.nodup
      rw [heq, map_append, map_cons, nodup_middle, ← map_append, hb,
        ← hkey] at hnodup
      rw [hclear] at ha
      exact absurd (mem_map_of_mem ha) (nodup_cons.mp hnodup).1
    · rw [hclear] at ha
      exact absurd hkey (hnone a ha)
    · rw [hclear] at ha
      rw [hkept.eq_of_key ha hb (hkey.trans hbkey.symm)]
      exact hconst

/-- Three calls for one attribute, the second of them with the CONST flag. -/
def sampleOps : List TankOp :=
  [.set ⟨⟨1, 2, 3, 4, 5⟩, 0, [7], by decide⟩, .set ⟨⟨1, 2, 3, 4, 5⟩, 1, [8], by decide⟩,
    .set ⟨⟨1, 2, 3, 4, 5⟩, 0, [9], by decide⟩]

theorem tankContract_sample : TankContract sampleOps (runTank sampleOps) := by
  refine tankContract_of_run (fun _ => 1) sampleOps fun op hop => ?_
  simp only [sampleOps, mem_cons, not_mem_nil, or_false] at hop
  rcases hop with rfl | rfl | rfl <;> exact ⟨by decide, rfl⟩

/-- An attribute for all positions, and behind it a CONST one for one position. -/
def wildcardOps : List TankOp :=
  [.set ⟨⟨1, 2, ATTR_POS_NA, 4, 5⟩, 0, [7], by decide⟩,
    .set ⟨⟨1, 2, 3, 4, 5⟩, 1, [8], by decide⟩]

/-- An attribute that is set again, for a node that does not fit into four bits. -/
def wideNodeOps : List TankOp :=
  [.set ⟨⟨1, 2, 3, 4, 21⟩, 0, [7], by decide⟩, .set ⟨⟨1, 2, 3, 4, 21⟩, 0, [8], by decide⟩]

/-- An attribute for all positions is read in place of a CONST one behind it, and an attribute
whose node does not fit into four bits is there twice. -/
theorem not_tankContract :
    (¬ ∀ before c after, wildcardOps = before ++ .set c :: after → c.isConst = true →
      (∀ op ∈ after, op.LeavesConst c.key) →
        getAttribute c.key (runTank wildcardOps) = some c.value) ∧
    ¬ (runTank wideNodeOps).Pairwise fun a b => a.key ≠ b.key := by
  refine ⟨fun h => ?_, by decide⟩
  have hread := h [.set ⟨⟨1, 2, ATTR_POS_NA, 4, 5⟩, 0, [7], by decide⟩]
    ⟨⟨1, 2, 3, 4, 5⟩, 1, [8], by decide⟩ [] rfl rfl nofun
  exact absurd hread (by decide)

end Hostboot.Targeting
